import LicoArc.Endpoint
import LicoArc.Interaction.History
import LicoArc.Interaction.Threads

/-!
# The coupled store and custody backend

What an endpoint asks of its surroundings, the world behind it and the contract
that `AtomicState` and `KeyCustody` put on every exchange. A swap is applied as
a whole or not at all and may report an error in either case; a read may fail,
and what it returns comes from a key that was issued under the handle.
-/

namespace LicoArc

/-! ## Requests -/

inductive Request
  | load
  | compareAndSwap (expected : Revision) (commit : Commit EndpointState)
  | settle (revision : Revision) (id : PendingId)
  | ed25519Public (handle : SecretHandle .ed25519Signing)
  | ed25519Sign (handle : SecretHandle .ed25519Signing) (message : Bytes)
  | mlDsa65Public (handle : SecretHandle .mlDsa65Signing)
  | mlDsa65Sign (handle : SecretHandle .mlDsa65Signing) (message : Bytes)
  | x25519Public (handle : CustodyRef .x25519Private)
  | x25519 (handle : CustodyRef .x25519Private) (peer : FixedBytes 32)
  | mlKem768Public (handle : CustodyRef .mlKem768Private)
  | mlKem768Encapsulate (peer : Bytes) (entropy : SecretHandle .mlKemEncapsulationEntropy)
  | mlKem768Decapsulate (handle : SecretHandle .mlKem768Private) (ciphertext : Bytes)
  | abortX25519 (staged : StagedSecretHandle .x25519Private)
  | abortMlKem768 (staged : StagedSecretHandle .mlKem768Private)
  | now
  | carry (packet : Bytes)
  | apply (effect : Bytes)
  | release (plaintext : Bytes)

@[reducible] def Reply : Request → Type
  | .load => Except Error Snapshot
  | .compareAndSwap _ _ => Except Error Revision
  | .settle _ _ => Except Error Revision
  | .ed25519Public _ => Except Error (FixedBytes 32)
  | .ed25519Sign _ _ => Except Error (FixedBytes 64)
  | .mlDsa65Public _ => Except Error Bytes
  | .mlDsa65Sign _ _ => Except Error Bytes
  | .x25519Public _ => Except Error (FixedBytes 32)
  | .x25519 _ _ => Except Error (FixedBytes 32)
  | .mlKem768Public _ => Except Error Bytes
  | .mlKem768Encapsulate _ _ => Except Error (Bytes × FixedBytes 32)
  | .mlKem768Decapsulate _ _ => Except Error (FixedBytes 32)
  | .abortX25519 _ => Unit
  | .abortMlKem768 _ => Unit
  | .now => Except Error Nat
  | .carry _ => Except Error Unit
  | .apply _ => Except Error Unit
  | .release _ => Except Error Unit

namespace Backend

def interface : Interface := ⟨Request, Reply⟩

def ask (request : Request) : Program interface (Reply request) :=
  @Program.perform interface request

def custody : KeyCustody (Program interface) where
  ed25519Public handle := ask (.ed25519Public handle)
  ed25519Sign handle message := ask (.ed25519Sign handle message)
  mlDsa65Public handle := ask (.mlDsa65Public handle)
  mlDsa65Sign handle message := ask (.mlDsa65Sign handle message)
  x25519Public handle := ask (.x25519Public handle)
  x25519 handle peer := ask (.x25519 handle peer)
  mlKem768Public handle := ask (.mlKem768Public handle)
  mlKem768Encapsulate peer entropy := ask (.mlKem768Encapsulate peer entropy)
  mlKem768Decapsulate handle ciphertext :=
    ask (.mlKem768Decapsulate handle ciphertext)
  abortX25519 staged := ask (.abortX25519 staged)
  abortMlKem768 staged := ask (.abortMlKem768 staged)

def store : AtomicState (Program interface) EndpointState where
  load := ask .load
  compareAndSwap expected commit := ask (.compareAndSwap expected commit)
  settle revision id := ask (.settle revision id)

def clock : Clock (Program interface) := ⟨ask .now⟩

def carrier : PacketCarrier (Program interface) :=
  ⟨fun packet => ask (.carry packet)⟩

def effects : ApplicationEffects (Program interface) :=
  ⟨fun effect => ask (.apply effect)⟩

def receiver : PlaintextReceiver (Program interface) :=
  ⟨fun plaintext => ask (.release plaintext)⟩

def endpoint (line : RuntimeLine) (provider : Provider) : Endpoint (Program interface) :=
  ⟨line, provider, custody, store⟩

end Backend

/-! ## Keys -/

inductive KeyMaterial
  | ed25519 (seed : FixedBytes 32)
  | mlDsa65 (seed : FixedBytes 32)
  | x25519 (privateKey : FixedBytes 32)
  | mlKem768 (seed : FixedBytes 64)
  | mlKemEntropy (entropy : FixedBytes 32)
  deriving DecidableEq

def KeyMaterial.purpose : KeyMaterial → Purpose
  | ed25519 _ => .ed25519Signing
  | mlDsa65 _ => .mlDsa65Signing
  | x25519 _ => .x25519Private
  | mlKem768 _ => .mlKem768Private
  | mlKemEntropy _ => .mlKemEncapsulationEntropy

inductive Lifecycle
  | staged
  | adopted
  deriving DecidableEq, Repr

structure KeyRecord where
  lifecycle : Lifecycle
  material : KeyMaterial
  deriving DecidableEq

abbrev Keys := Nat → Option KeyRecord

def KeyRecord.is (record : KeyRecord) (lifecycle : Lifecycle) (purpose : Purpose) : Bool :=
  record.lifecycle = lifecycle ∧ record.material.purpose = purpose

namespace KeyMutation

def purpose : KeyMutation → Purpose
  | adoptX25519 _ | deleteX25519 _ => .x25519Private
  | adoptMlKem768 _ | deleteMlKem768 _ => .mlKem768Private
  | deleteMlKemEncapsulationEntropy _ => .mlKemEncapsulationEntropy

/-- The lifecycle that the key of a mutation must have. -/
def lifecycle : KeyMutation → Lifecycle
  | adoptX25519 _ | adoptMlKem768 _ => .staged
  | deleteX25519 _ | deleteMlKem768 _ | deleteMlKemEncapsulationEntropy _ => .adopted

def applied (mutation : KeyMutation) (record : Option KeyRecord) : Option KeyRecord :=
  match mutation.lifecycle with
  | .staged => record.map fun record => { record with lifecycle := .adopted }
  | .adopted => none

end KeyMutation

namespace Keys

def permits (keys : Keys) (mutation : KeyMutation) : Bool :=
  (keys mutation.custodyToken).any (·.is mutation.lifecycle mutation.purpose)

def mutate (keys : Keys) (mutation : KeyMutation) : Keys :=
  Function.update keys mutation.custodyToken (mutation.applied (keys mutation.custodyToken))

def mutateAll (keys : Keys) (mutations : List KeyMutation) : Keys := mutations.foldl mutate keys

/-- The key of a staged handle becomes unreachable; any other key stays. -/
def abort (keys : Keys) (purpose : Purpose) (token : Nat) : Keys :=
  if (keys token).any (·.is .staged purpose) then Function.update keys token none else keys

theorem mutateAll_of_not_mem {keys : Keys} {mutations : List KeyMutation} {token : Nat}
    (h : token ∉ mutations.map KeyMutation.custodyToken) :
    keys.mutateAll mutations token = keys token := by
  induction mutations generalizing keys with
  | nil => rfl
  | cons mutation mutations ih =>
    rw [List.map_cons, List.mem_cons, not_or] at h
    rw [mutateAll, List.foldl_cons]
    refine (ih h.2).trans ?_
    exact Function.update_of_ne h.1 _ _

theorem mutateAll_of_mem {keys : Keys} {mutations : List KeyMutation} {mutation : KeyMutation}
    (hnodup : (mutations.map KeyMutation.custodyToken).Nodup) (hmem : mutation ∈ mutations) :
    keys.mutateAll mutations mutation.custodyToken =
      mutation.applied (keys mutation.custodyToken) := by
  induction mutations generalizing keys with
  | nil => cases hmem
  | cons first mutations ih =>
    obtain ⟨hfirst, hnodup⟩ := List.nodup_cons.mp hnodup
    rw [mutateAll, List.foldl_cons]
    rcases List.mem_cons.mp hmem with rfl | hmem
    · refine (mutateAll_of_not_mem hfirst).trans ?_
      exact Function.update_self _ _ _
    · refine (ih hnodup hmem).trans ?_
      have hne : mutation.custodyToken ≠ first.custodyToken := by
        intro heq
        exact hfirst (heq ▸ List.mem_map_of_mem hmem)
      rw [mutate, Function.update_of_ne hne]

theorem mutateAll_material {keys : Keys} {mutations : List KeyMutation} {token : Nat}
    {record : KeyRecord} (h : keys.mutateAll mutations token = some record) :
    ∃ before, keys token = some before ∧ before.material = record.material := by
  induction mutations generalizing keys with
  | nil => exact ⟨record, h, rfl⟩
  | cons mutation mutations ih =>
    obtain ⟨before, hbefore, hmaterial⟩ := ih h
    by_cases htoken : token = mutation.custodyToken
    · subst htoken
      rw [mutate, Function.update_self, KeyMutation.applied] at hbefore
      split at hbefore
      · obtain ⟨first, hfirst, rfl⟩ := Option.map_eq_some_iff.mp hbefore
        exact ⟨first, hfirst, hmaterial⟩
      · cases hbefore
    · rw [mutate, Function.update_of_ne htoken] at hbefore
      exact ⟨before, hbefore, hmaterial⟩

theorem abort_eq_some {keys : Keys} {purpose : Purpose} {token other : Nat} {record : KeyRecord}
    (h : keys.abort purpose token other = some record) : keys other = some record := by
  rw [abort] at h
  split at h
  · by_cases htoken : other = token
    · subst htoken
      rw [Function.update_self] at h
      cases h
    · rwa [Function.update_of_ne htoken] at h
  · exact h

theorem abort_of_adopted {keys : Keys} {purpose : Purpose} {token other : Nat} {record : KeyRecord}
    (h : keys other = some record) (hadopted : record.lifecycle = .adopted) :
    keys.abort purpose token other = some record := by
  rw [abort]
  split
  · rename_i hstaged
    have hne : other ≠ token := by
      rintro rfl
      simp [h, KeyRecord.is, hadopted] at hstaged
    rwa [Function.update_of_ne hne]
  · exact h

end Keys

/-! ## Worlds -/

abbrev Snapshots := History Snapshot (fun snapshot => snapshot.revision.value)

/-- The durable history, the keys in custody and every key that was ever issued. -/
structure World where
  snapshots : Snapshots
  keys : Keys
  issued : List (Nat × KeyMaterial)
  unique : (issued.map Prod.fst).Nodup
  known : ∀ token record, keys token = some record → (token, record.material) ∈ issued

namespace World

variable {w w' w'' : World}

def durable (w : World) : Snapshot := w.snapshots.newest

def initial (state : EndpointState) : World where
  snapshots := .single (.initial state)
  keys _ := none
  issued := []
  unique := List.nodup_nil
  known := nofun

/-- The next snapshot of the store, with the keys that its mutations leave. -/
def advance (w : World) (state : EndpointState) (pending : List PendingItem)
    (mutations : List KeyMutation) : World where
  snapshots := w.snapshots.push ⟨⟨w.durable.revision.value + 1⟩, state, pending⟩
    (Nat.lt_succ_self _)
  keys := w.keys.mutateAll mutations
  issued := w.issued
  unique := w.unique
  known token record h := by
    obtain ⟨before, hbefore, hmaterial⟩ := Keys.mutateAll_material h
    exact hmaterial ▸ w.known token before hbefore

def abort (w : World) (purpose : Purpose) (token : Nat) : World where
  snapshots := w.snapshots
  keys := w.keys.abort purpose token
  issued := w.issued
  unique := w.unique
  known token record h := w.known token record (Keys.abort_eq_some h)

/-- The caller puts a new key into custody, under a token that was never used. One sequence numbers
the keys of every purpose, as in the custody of the flow tests: a commit compares its tokens
whatever their purpose, and where a custody numbers each purpose apart they can meet (`Shelf`). -/
def issue (w : World) (token : Nat) (record : KeyRecord)
    (hfresh : token ∉ w.issued.map Prod.fst) : World where
  snapshots := w.snapshots
  keys := Function.update w.keys token (some record)
  issued := (token, record.material) :: w.issued
  unique := List.nodup_cons.mpr ⟨hfresh, w.unique⟩
  known other other_record h := by
    by_cases htoken : other = token
    · subst htoken
      rw [Function.update_self] at h
      cases h
      exact List.mem_cons_self
    · rw [Function.update_of_ne htoken] at h
      exact List.mem_cons_of_mem _ (w.known other other_record h)

/-- A swap as the contract applies it: against the durable revision, with every mutation valid. -/
structure Swapped (w : World) (expected : Revision) (commit : Commit EndpointState) (w' : World) :
    Prop where
  current : expected = w.durable.revision
  bounded : expected.value < maxSafeInteger
  permitted : ∀ mutation ∈ commit.keyMutations, w.keys.permits mutation
  advanced : w' = w.advance commit.nextState commit.pending commit.keyMutations

structure Settled (w : World) (revision : Revision) (id : PendingId) (w' : World) : Prop where
  current : revision = w.durable.revision
  bounded : revision.value < maxSafeInteger
  pending : ∃ item ∈ w.durable.pending, item.id = id
  advanced : w' = w.advance w.durable.state (w.durable.pending.eraseP fun item => item.id = id) []

/-- A later world: nothing that was durable or issued is forgotten. -/
structure Later (w w' : World) : Prop where
  snapshots : w.snapshots.Extends w'.snapshots
  issued : w.issued <:+ w'.issued

theorem Later.refl (w : World) : w.Later w := ⟨.refl _, List.suffix_refl _⟩

theorem Later.trans (h : w.Later w') (h' : w'.Later w'') : w.Later w'' :=
  ⟨h.snapshots.trans h'.snapshots, h.issued.trans h'.issued⟩

theorem later_advance (w : World) (state : EndpointState) (pending : List PendingItem)
    (mutations : List KeyMutation) : w.Later (w.advance state pending mutations) :=
  ⟨w.snapshots.extends_push ⟨⟨w.durable.revision.value + 1⟩, state, pending⟩ (Nat.lt_succ_self _),
    List.suffix_refl _⟩

theorem Swapped.later {expected : Revision} {commit : Commit EndpointState}
    (h : w.Swapped expected commit w') : w.Later w' :=
  h.advanced ▸ w.later_advance _ _ _

theorem Settled.later {revision : Revision} {id : PendingId} (h : w.Settled revision id w') :
    w.Later w' :=
  h.advanced ▸ w.later_advance _ _ _

@[simp] theorem advance_durable (w : World) (state : EndpointState) (pending : List PendingItem)
    (mutations : List KeyMutation) : (w.advance state pending mutations).durable =
      ⟨⟨w.durable.revision.value + 1⟩, state, pending⟩ := rfl

@[simp] theorem advance_entries (w : World) (state : EndpointState) (pending : List PendingItem)
    (mutations : List KeyMutation) : (w.advance state pending mutations).snapshots.entries =
      ⟨⟨w.durable.revision.value + 1⟩, state, pending⟩ :: w.snapshots.entries := rfl

end World

/-! ## The contract -/

namespace Backend

/-- What a custody or clock read returns. Every other request is no read. -/
def Reads (provider : Provider) (issued : List (Nat × KeyMaterial)) :
    (request : Request) → Reply request → Prop
  | .ed25519Public handle, reply => ∀ value, reply = .ok value →
    ∃ seed, (handle.custodyToken, .ed25519 seed) ∈ issued ∧ value = provider.ed25519Public seed
  | .ed25519Sign handle message, reply => ∀ value, reply = .ok value →
    ∃ seed, (handle.custodyToken, .ed25519 seed) ∈ issued ∧
      value = provider.ed25519Sign seed message
  | .mlDsa65Public handle, reply => ∀ value, reply = .ok value →
    ∃ seed, (handle.custodyToken, .mlDsa65 seed) ∈ issued ∧ value = provider.mlDsa65Public seed
  | .mlDsa65Sign handle message, reply => ∀ value, reply = .ok value →
    ∃ seed, (handle.custodyToken, .mlDsa65 seed) ∈ issued ∧
      value = provider.mlDsa65Sign seed message
  | .x25519Public handle, reply => ∀ value, reply = .ok value →
    ∃ key, (handle.custodyToken, .x25519 key) ∈ issued ∧ value = provider.x25519Public key
  | .x25519 handle peer, reply => ∀ value, reply = .ok value →
    ∃ key, (handle.custodyToken, .x25519 key) ∈ issued ∧ provider.x25519 key peer = .ok value
  | .mlKem768Public handle, reply => ∀ value, reply = .ok value →
    ∃ seed, (handle.custodyToken, .mlKem768 seed) ∈ issued ∧ value = provider.mlKem768Public seed
  | .mlKem768Encapsulate peer entropy, reply => ∀ value, reply = .ok value →
    ∃ bytes, (entropy.custodyToken, .mlKemEntropy bytes) ∈ issued ∧
      provider.mlKem768Encapsulate peer bytes = .ok value
  | .mlKem768Decapsulate handle ciphertext, reply => ∀ value, reply = .ok value →
    ∃ seed, (handle.custodyToken, .mlKem768 seed) ∈ issued ∧
      provider.mlKem768Decapsulate seed ciphertext = .ok value
  | _, _ => True

def handles (provider : Provider) (w : World) (request : Request) (reply : Reply request)
    (w' : World) : Prop :=
  match request, reply with
  | .load, reply => w' = w ∧ ∀ snapshot, reply = .ok snapshot → snapshot = w.durable
  | .compareAndSwap expected commit, reply =>
    (w' = w ∨ w.Swapped expected commit w') ∧
      (reply = .ok ⟨expected.value + 1⟩ → w.Swapped expected commit w')
  | .settle revision id, reply =>
    (w' = w ∨ w.Settled revision id w') ∧ ∀ next, reply = .ok next → w.Settled revision id w'
  | .abortX25519 staged, _ => w' = w.abort .x25519Private staged.custodyToken
  | .abortMlKem768 staged, _ => w' = w.abort .mlKem768Private staged.custodyToken
  | request, reply => w' = w ∧ Reads provider w.issued request reply

/-- What the caller does to the custody on its own: it issues keys and drops staged ones. -/
inductive Surroundings (w : World) : World → Prop
  | issue {token : Nat} {record : KeyRecord} (fresh : token ∉ w.issued.map Prod.fst)
      (lifecycle : record.lifecycle = .staged ∨
        (record.material.purpose ≠ .x25519Private ∧ record.material.purpose ≠ .mlKem768Private)) :
      Surroundings w (w.issue token record fresh)
  | discard {purpose : Purpose} {token : Nat} : Surroundings w (w.abort purpose token)

theorem Surroundings.later {w w' : World} (h : Surroundings w w') : w.Later w' := by
  cases h with
  | issue fresh lifecycle => exact ⟨.refl _, List.suffix_cons _ _⟩
  | discard => exact ⟨.refl _, List.suffix_refl _⟩

theorem later_of_handles {provider : Provider} {w w' : World} {request : Request}
    {reply : Reply request} (h : handles provider w request reply w') : w.Later w' := by
  cases request with
  | compareAndSwap expected commit =>
    rcases h.1 with rfl | hswapped
    · exact .refl _
    · exact hswapped.later
  | settle revision id =>
    rcases h.1 with rfl | hsettled
    · exact .refl _
    · exact hsettled.later
  | abortX25519 staged =>
    subst h
    exact ⟨.refl _, List.suffix_refl _⟩
  | abortMlKem768 staged =>
    subst h
    exact ⟨.refl _, List.suffix_refl _⟩
  | _ =>
    cases h.1
    exact .refl _

theorem Reads.mono {provider : Provider} {issued issued' : List (Nat × KeyMaterial)}
    (h : ∀ x ∈ issued, x ∈ issued') {request : Request} {reply : Reply request}
    (hreads : Reads provider issued request reply) : Reads provider issued' request reply := by
  cases request <;> try trivial
  all_goals
    intro value hvalue
    obtain ⟨key, hkey, heq⟩ := hreads value hvalue
    exact ⟨key, h _ hkey, heq⟩

end Backend

end LicoArc
