import LicoArc.TableProvider

/-!
# Two parties exchanging records

The ratchets of one session, every record that was sent and every record that
was accepted. A step sends, bootstraps or receives; the network may deliver any
record that was ever sent, to either party, any number of times.
-/

namespace LicoArc

inductive Party
  | initiator
  | responder
  deriving DecidableEq, Repr

namespace Party

def other : Party → Party
  | .initiator => .responder
  | .responder => .initiator

def direction : Party → Direction
  | .initiator => .initiatorToResponder
  | .responder => .responderToInitiator

theorem other_ne (party : Party) : party.other ≠ party := by
  cases party <;> decide

theorem eq_other_of_ne {a b : Party} (h : a ≠ b) : a = b.other := by
  cases a <;> cases b <;> first | rfl | exact absurd rfl h

theorem eq_of_ne_of_ne {a b c : Party} (ha : a ≠ c) (hb : b ≠ c) : a = b :=
  (eq_other_of_ne ha).trans (eq_other_of_ne hb).symm

theorem direction_injective {a b : Party} (h : a.direction = b.direction) : a = b := by
  cases a <;> cases b <;> first | rfl | cases h

theorem direction_opposite (party : Party) :
    party.direction.opposite = party.other.direction := by
  cases party <;> rfl

end Party

structure SentRecord where
  sender : Party
  packet : Bytes
  plaintext : Bytes
  deriving DecidableEq

structure AcceptedRecord where
  receiver : Party
  packet : Bytes
  plaintext : Bytes
  deriving DecidableEq

structure Exchange where
  state : Party → RatchetState
  sent : List SentRecord
  accepted : List AcceptedRecord
  /-- The public keys that were ever a ratchet's own. -/
  publics : List (FixedBytes 32)

/-- Custody operations that succeed return what the key material determines. -/
structure KeyCustody.Faithful (provider : Provider) (privateKey : Nat → FixedBytes 32)
    (custody : KeyCustody Id) : Prop where
  x25519Public {handle : CustodyRef .x25519Private} {publicKey : FixedBytes 32} :
    (custody.x25519Public handle).run = .ok publicKey →
    publicKey = provider.x25519Public (privateKey handle.custodyToken)
  x25519 {handle : CustodyRef .x25519Private} {publicKey shared : FixedBytes 32} :
    (custody.x25519 handle publicKey).run = .ok shared →
    provider.x25519 (privateKey handle.custodyToken) publicKey = .ok shared

def KeyCustody.ofKeys (provider : Provider) (privateKey : Nat → FixedBytes 32) : KeyCustody Id :=
  let unavailable := Error.terminal .providerFailure .provider
  { ed25519Public _ := .error unavailable
    ed25519Sign _ _ := .error unavailable
    mlDsa65Public _ := .error unavailable
    mlDsa65Sign _ _ := .error unavailable
    x25519Public handle := .ok (provider.x25519Public (privateKey handle.custodyToken))
    x25519 handle publicKey := provider.x25519 (privateKey handle.custodyToken) publicKey
    mlKem768Public _ := .error unavailable
    mlKem768Encapsulate _ _ := .error unavailable
    mlKem768Decapsulate _ _ := .error unavailable
    abortX25519 _ := ()
    abortMlKem768 _ := () }

theorem KeyCustody.ofKeys_faithful (provider : Provider) (privateKey : Nat → FixedBytes 32) :
    (ofKeys provider privateKey).Faithful provider privateKey where
  x25519Public h := (Except.ok.inj h).symm
  x25519 h := h

namespace Exchange

section

variable (provider : Provider) (privateKey : Nat → FixedBytes 32)

def publicOf (token : Nat) : FixedBytes 32 := provider.x25519Public (privateKey token)

/-- The ratchets that a handshake hands over, with crossed public keys. -/
def start (hybrid : HybridSecrets) (context : FixedBytes 32)
    (initiatorPrivate responderPrivate : SecretHandle .x25519Private) : Except Error Exchange := do
  let initiatorPublic := publicOf provider privateKey initiatorPrivate.custodyToken
  let responderPublic := publicOf provider privateKey responderPrivate.custodyToken
  let initiator ← RatchetState.initiator provider hybrid context initiatorPrivate initiatorPublic
    responderPublic
  let responder ← RatchetState.responder provider hybrid context responderPrivate responderPublic
    initiatorPublic
  return { state := fun
             | .initiator => initiator
             | .responder => responder
           sent := [], accepted := [], publics := [initiatorPublic, responderPublic] }

def Fresh (w : Exchange) (staged : StagedSecretHandle .x25519Private) : Prop :=
  publicOf provider privateKey staged.custodyToken ∉ w.publics

variable {provider privateKey}

def afterSend (w : Exchange) (party : Party) (next : RatchetState) (packet plaintext : Bytes) :
    Exchange :=
  { w with state := Function.update w.state party next
           sent := ⟨party, packet, plaintext⟩ :: w.sent }

def afterBootstrap (w : Exchange) (party : Party) (next : RatchetState) : Exchange :=
  { w with state := Function.update w.state party next
           publics := next.localPublic :: w.publics }

def afterReceive (w : Exchange) (party : Party) (next : RatchetState) (packet plaintext : Bytes) :
    Exchange :=
  { w with state := Function.update w.state party next
           accepted := ⟨party, packet, plaintext⟩ :: w.accepted
           publics := next.localPublic :: w.publics }

/-- A step of the exchange. A failed operation leaves its ratchet as it is. -/
inductive Step (provider : Provider) (privateKey : Nat → FixedBytes 32) (w : Exchange) :
    Exchange → Prop
  | send (party : Party) {plaintext packet : Bytes} {next : RatchetState}
      (h : (w.state party).send provider plaintext = .ok (next, packet)) :
      Step provider privateKey w (w.afterSend party next packet plaintext)
  | bootstrap (party : Party) {custody : KeyCustody Id}
      {staged : StagedSecretHandle .x25519Private} {next : RatchetState}
      (faithful : custody.Faithful provider privateKey)
      (fresh : w.Fresh provider privateKey staged)
      (h : ((w.state party).bootstrapResponder provider custody staged).run.run = .ok next) :
      Step provider privateKey w (w.afterBootstrap party next)
  | receive (party : Party) {custody : KeyCustody Id} {packet plaintext : Bytes}
      {staged : Option (StagedSecretHandle .x25519Private)} {next : RatchetState}
      (faithful : custody.Faithful provider privateKey)
      (fresh : ∀ handle, staged = some handle → w.Fresh provider privateKey handle)
      (delivered : ∃ record ∈ w.sent, record.packet = packet)
      (h : ((w.state party).receive provider custody packet staged).run.run =
        .ok (next, plaintext)) :
      Step provider privateKey w (w.afterReceive party next packet plaintext)

end

def Reachable (provider : Provider) (privateKey : Nat → FixedBytes 32) (hybrid : HybridSecrets)
    (context : FixedBytes 32) (w : Exchange) : Prop :=
  ∃ initiatorPrivate responderPrivate w₀,
    start provider privateKey hybrid context initiatorPrivate responderPrivate = .ok w₀ ∧
    Relation.ReflTransGen (Step provider privateKey) w₀ w

end Exchange

/-! ## The ledger of chains

Chain `0` is the initiator's initial chain and chain `e + 1` is the one that a
Diffie-Hellman step creates in answer to chain `e`, so the parties own the
chains in turn.
-/

structure Chain where
  privateKey : FixedBytes 32
  dh : FixedBytes 32
  root : Secret
  start : Secret
  pn : Nat
  /-- Packet and plaintext of each record, by its number. -/
  records : List (Bytes × Bytes)

structure Ledger where
  chain : Nat → Chain
  last : Nat
  /-- Chain and number of each accepted record. -/
  taken : List (Nat × Nat)

def owner : Nat → Party
  | 0 => .initiator
  | e + 1 => (owner e).other

theorem owner_succ_ne (e : Nat) : owner (e + 1) ≠ owner e := Party.other_ne _

def Chain.Frames (provider : Provider) (context : FixedBytes 32) (c : Chain) (n : Nat)
    (record : Bytes × Bytes) : Prop :=
  ∃ step header body, stepAt provider c.start n = .ok step ∧
    RatchetHeader.encode ⟨c.dh, c.pn, n⟩ = .ok header ∧
    provider.aeadSeal step.key step.nonce (recordAad context header) record.2 = .ok body ∧
    record.1 = header ++ body ∧ (header ++ body).length ≤ maxProtectedPacketBytes

structure Ledger.Linked (provider : Provider) (hybrid : HybridSecrets) (context : FixedBytes 32)
    (ledger : Ledger) : Prop where
  first : initialKeys provider hybrid context =
    .ok ((ledger.chain 0).root, (ledger.chain 0).start)
  firstPn : (ledger.chain 0).pn = 0
  secondPn : 1 ≤ ledger.last → (ledger.chain 1).pn = 0
  agreed {e : Nat} : e < ledger.last → ∃ shared,
    provider.x25519 (ledger.chain (e + 1)).privateKey (ledger.chain e).dh = .ok shared ∧
    dhKeys provider (ledger.chain e).root shared (owner (e + 1)).direction context =
      .ok ((ledger.chain (e + 1)).root, (ledger.chain (e + 1)).start)
  dh {e : Nat} : e ≤ ledger.last →
    (ledger.chain e).dh = provider.x25519Public (ledger.chain e).privateKey
  distinct {e e' : Nat} : e ≤ ledger.last → e' ≤ ledger.last →
    (ledger.chain e).dh = (ledger.chain e').dh → e = e'
  pn {e : Nat} : e + 2 ≤ ledger.last →
    (ledger.chain (e + 2)).pn = (ledger.chain e).records.length
  short {e : Nat} : e ≤ ledger.last → (ledger.chain e).records.length < 2 ^ 32
  framed {e n : Nat} {record : Bytes × Bytes} : e ≤ ledger.last →
    (ledger.chain e).records[n]? = some record →
    (ledger.chain e).Frames provider context n record

namespace Ledger

def append (ledger : Ledger) (e : Nat) (record : Bytes × Bytes) : Ledger :=
  let longer := { ledger.chain e with records := (ledger.chain e).records ++ [record] }
  { ledger with chain := Function.update ledger.chain e longer }

def extend (ledger : Ledger) (c : Chain) : Ledger :=
  { ledger with chain := Function.update ledger.chain (ledger.last + 1) c, last := ledger.last + 1 }

def take (ledger : Ledger) (coordinate : Nat × Nat) : Ledger :=
  { ledger with taken := coordinate :: ledger.taken }

end Ledger

/-! ## One side of the exchange -/

structure Receiving (provider : Provider) (ledger : Ledger) (state : RatchetState) (e : Nat) :
    Prop where
  chain : ∃ key, state.receiving = some key ∧
    chainAt provider (ledger.chain e).start state.nr = .ok key
  peerPublic : state.peerPublic = (ledger.chain e).dh
  nr_le : state.nr ≤ (ledger.chain e).records.length

/-- The party sends in chain `e` and receives in the chain before it. -/
structure Active (provider : Provider) (privateKey : Nat → FixedBytes 32) (ledger : Ledger)
    (state : RatchetState) (e : Nat) : Prop where
  root : state.root = (ledger.chain e).root
  chain : ∃ key, state.sending = some key ∧
    chainAt provider (ledger.chain e).start state.ns = .ok key
  ns : state.ns = (ledger.chain e).records.length
  localPublic : state.localPublic = (ledger.chain e).dh
  localPrivate : privateKey state.localPrivate.custodyToken = (ledger.chain e).privateKey
  pn : state.pn = (ledger.chain e).pn
  receiving {r : Nat} : e = r + 1 → Receiving provider ledger state r
  opening : e = 0 → state.receiving = none ∧ state.nr = 0 ∧
    ∀ k ≤ ledger.last, owner k = .responder → state.peerPublic ≠ (ledger.chain k).dh

/-- The responder before it sends for the first time. -/
structure Waiting (provider : Provider) (ledger : Ledger) (state : RatchetState) : Prop where
  root : state.root = (ledger.chain 0).root
  sending : state.sending = none
  pn : state.pn = 0
  ns : state.ns = 0
  receiving : Receiving provider ledger state 0

/-- Where a party stands in the ledger. The horizon is one past its receiving chain. -/
inductive View (provider : Provider) (privateKey : Nat → FixedBytes 32) (ledger : Ledger)
    (party : Party) (state : RatchetState) : Nat → Prop
  | ahead (owns : owner ledger.last = party)
      (active : Active provider privateKey ledger state ledger.last) :
      View provider privateKey ledger party state ledger.last
  | behind {e : Nat} (owns : owner e = party) (last : ledger.last = e + 1)
      (active : Active provider privateKey ledger state e) :
      View provider privateKey ledger party state e
  | waiting (first : ledger.last = 0) (isResponder : party = .responder)
      (waiting : Waiting provider ledger state) : View provider privateKey ledger party state 1

/-- How many records of a peer's chain a party has passed. -/
def Ledger.limit (ledger : Ledger) (horizon nr e : Nat) : Nat :=
  if e + 1 < horizon then (ledger.chain e).records.length
  else if e + 1 = horizon then nr
  else 0

/-- The skipped keys of a party are those of the peer's records that it passed and did not
accept. -/
def Retains (provider : Provider) (ledger : Ledger) (party : Party) (skipped : SkippedKeys)
    (limit : Nat → Nat) : Prop :=
  ∀ coordinate keys, skipped[coordinate]? = some keys ↔ ∃ e n step, owner e ≠ party ∧
    n < limit e ∧ (e, n) ∉ ledger.taken ∧ coordinate = ((ledger.chain e).dh, n) ∧
    stepAt provider (ledger.chain e).start n = .ok step ∧ keys = (step.key, step.nonce)

structure Side (provider : Provider) (privateKey : Nat → FixedBytes 32) (context : FixedBytes 32)
    (ledger : Ledger) (party : Party) (state : RatchetState) (horizon : Nat) : Prop where
  context : state.sessionContext = context
  direction : state.sendDirection = party.direction
  view : View provider privateKey ledger party state horizon
  retains : Retains provider ledger party state.skipped (ledger.limit horizon state.nr)
  taken {e n : Nat} : (e, n) ∈ ledger.taken → owner e ≠ party →
    n < ledger.limit horizon state.nr e

end LicoArc
