import LicoArc.Interaction.Joint
import LicoArc.PendingWork
import LicoArc.SessionExchange

/-!
# Delivery between two endpoints

Two stores run side by side over a network that hands over what was made, as
often and as late as it pleases. A record is durably accepted as it was sent,
and once.
-/

namespace LicoArc

open Backend

/-- Two stores that have just been created, one in each role. -/
structure Founded (worlds : Party → World) : Prop where
  genesis (party : Party) : (worlds party).Genesis
  initiator : (worlds .initiator).durable = .initial .initiator
  responder : (worlds .responder).durable = .initial .responder

theorem Founded.opening {worlds : Party → World} (h : Founded worlds) : Opening worlds := by
  have hdurable : ∀ party, ∀ snapshot ∈ (worlds party).snapshots.entries,
      snapshot = (worlds party).durable := by
    intro party snapshot hsnapshot
    rcases (h.genesis party).entries with heq | heq <;>
      rw [World.durable, (List.cons.inj heq).1, ← List.mem_singleton, ← heq] <;> exact hsnapshot
  intro party snapshot hsnapshot
  rw [hdurable party snapshot hsnapshot]
  cases party with
  | initiator =>
    rw [h.initiator]
    exact ⟨rfl, rfl⟩
  | responder =>
    rw [h.responder]
    exact ⟨rfl, rfl⟩

section

variable {ι : Type} [DecidableEq ι] {provider : Provider} {privateKey : Nat → FixedBytes 32}
  {c₀ c : Party → (system provider).Config ι} {log : List (Party × (system provider).Event ι)}

def worldsOf (c : Party → (system provider).Config ι) (party : Party) : World := (c party).world

/-- The network hands over what a party has made, and the custody checks what is staged. -/
def Transmits (c : Party → (system provider).Config ι) (party : Party) :
    (system provider).Event ι → Prop
  | .start _ call => call.Delivered (worldsOf c) party
  | .exchange _ _ x => ChecksStaged x
  | _ => True

omit [DecidableEq ι] in
theorem worldsOf_update (c : Party → (system provider).Config ι) (party : Party)
    (next : (system provider).Config ι) :
    worldsOf (Function.update c party next) = Function.update (worldsOf c) party next.world := by
  funext other
  by_cases hother : other = party
  · subst hother
    simp only [worldsOf, Function.update_self]
  · simp only [worldsOf, Function.update_of_ne hother]

def Checks (_ : Party) (_ : (system provider).Config ι) (event : (system provider).Event ι) :
    Prop :=
  ∀ i call x, event = .exchange i call x → ChecksStaged x

omit [DecidableEq ι] in
theorem checks_of_transmits {c : Party → (system provider).Config ι} {party : Party}
    {event : (system provider).Event ι} (h : Transmits c party event) :
    Checks party (c party) event := by
  rintro i call x rfl
  exact h

omit [DecidableEq ι] in
theorem records_of_silent (party : Party) {event : (system provider).Event ι}
    (h : appendedBy event = []) : sentBy party event = none ∧ receivedBy party event = none := by
  unfold sentBy receivedBy
  rw [h]
  split
  · exact ⟨Operation.sent_nil, Operation.received_nil⟩
  · exact ⟨rfl, rfl⟩

omit [DecidableEq ι] in
theorem sentRecords_cons (party : Party) (event : (system provider).Event ι)
    (log : List (Party × (system provider).Event ι)) :
    sentRecords ((party, event) :: log) = (sentBy party event).toList ++ sentRecords log := by
  rw [sentRecords, List.filterMap_cons]
  cases sentBy party event <;> rfl

omit [DecidableEq ι] in
theorem acceptedRecords_cons (party : Party) (event : (system provider).Event ι)
    (log : List (Party × (system provider).Event ι)) :
    acceptedRecords ((party, event) :: log) =
      (receivedBy party event).toList ++ acceptedRecords log := by
  rw [acceptedRecords, List.filterMap_cons]
  cases receivedBy party event <;> rfl

theorem joint_delivered (hidle : ∀ party, (c₀ party).allIdle)
    (h : (system provider).Joint Transmits c₀ log c) (party : Party) {i : ι} {call : Call}
    {origin : World} {trace : List (Program.Exchange interface World)}
    {rest : Program interface call.Result}
    (hbusy : (c party).thread i = .busy call origin trace rest) :
    call.Delivered (worldsOf c) party := by
  refine @System.Joint.started interface World ι Party _ _ (system provider) Transmits c₀ c log
    (fun c party call => Call.Delivered (worldsOf c) party call) hidle (fun hguard => hguard) ?_ h
    party i call origin trace rest hbusy
  intro c acting event next party call step hbegins
  rw [worldsOf_update]
  exact Call.Delivered.later hbegins (@later_update (worldsOf c) acting _ (later_of_step step))

/-- In every joint run both stores follow one exchange of the records that they sent and
accepted. -/
theorem joint_session (commutes : X25519Commutes provider) (correct : MlKemCorrect provider)
    (hidle : ∀ party, (c₀ party).allIdle) (hfounded : Founded (worldsOf c₀))
    (h : (system provider).Joint Transmits c₀ log c)
    (keys : SharedKeys provider privateKey (worldsOf c)) :
    Session provider privateKey (worldsOf c) (sentRecords log) (acceptedRecords log) := by
  induction h with
  | start => exact .opening hfounded.opening
  | @step log c party event next run step guarded ih =>
    have hlater := @later_update (worldsOf c) party _ (later_of_step step)
    rw [worldsOf_update] at keys ⊢
    have hsilent : (c party).world.Idles next.world → appendedBy event = [] →
        Session provider privateKey (Function.update (worldsOf c) party next.world)
          (sentRecords ((party, event) :: log)) (acceptedRecords ((party, event) :: log)) := by
      intro hidles hnothing
      obtain ⟨hsent, haccepted⟩ := records_of_silent party hnothing
      rw [sentRecords_cons, acceptedRecords_cons, hsent, haccepted]
      refine (ih (keys.earlier hlater)).idles fun other => ?_
      by_cases hother : other = party
      · subst hother
        rw [Function.update_self]
        exact hidles
      · rw [Function.update_of_ne hother]
        exact .of_snapshots (.refl _) rfl
    have hlocal := fun other => run.run_of (@checks_of_transmits ι provider) other
    cases event with
    | start => exact hsilent (.of_snapshots (later_of_step step) (by cases step; rfl)) rfl
    | finish => exact hsilent (.of_snapshots (later_of_step step) (by cases step; rfl)) rfl
    | surroundings before after =>
      refine hsilent (.of_snapshots (later_of_step step) ?_) rfl
      cases step with
      | surroundings moved => exact surroundings_snapshots moved
    | exchange i call x =>
      obtain ⟨hbefore, hafter, _⟩ := exchange_store (hidle party) (hlocal party) step
      have hmoves := exchange_moves_fresh (hidle party) (hfounded.genesis party)
        (fun hguard => hguard _ _ _ rfl) (hlocal party) step
      have hnothing : Queues x.before.durable.pending [] x.after.durable.pending →
          appendedBy (.exchange i call x : (system provider).Event ι) = [] := appendedBy_queues
      rw [hbefore, hafter] at hnothing
      have hkept : next.world.snapshots = (c party).world.snapshots →
          Session provider privateKey (Function.update (worldsOf c) party next.world)
            (sentRecords ((party, .exchange i call x) :: log))
            (acceptedRecords ((party, .exchange i call x) :: log)) := by
        intro hsnapshots
        refine hsilent (.of_snapshots (later_of_step step) hsnapshots) (hnothing ?_)
        rw [World.durable_of_snapshots hsnapshots]
        exact .refl _
      cases hmoves with
      | stays hsame => exact hkept (congrArg World.snapshots hsame)
      | gives hgiven => exact hkept (hgiven ▸ rfl)
      | settles hsettled => exact hsilent (.of_settled hsettled) (hnothing hsettled.queues)
      | @commits line operation _ _ hcommitted =>
        have hdelivered : operation.Delivered (worldsOf c) party := by
          cases step with
          | exchange busy handled => exact joint_delivered hidle run party busy
        have hmove := hcommitted.committed.phaseMove
        have hhandshake := (run_handshaken (hidle party) (hfounded.genesis party)
          (hlocal party)).moves hcommitted.committed
        obtain ⟨plan, unused, pending, hdecided, hpending, _, _, hadvanced⟩ := hcommitted.planned
        obtain ⟨made, hqueues, hturn⟩ := Operation.turn hdecided hpending
        have happended : Queues x.before.durable.pending made x.after.durable.pending := by
          rw [hbefore, hafter, hadvanced]
          exact hqueues
        rw [sentRecords_cons, acceptedRecords_cons, sentBy, receivedBy,
          appendedBy_queues happended]
        rw [hadvanced] at keys hlater hmove hhandshake ⊢
        exact (ih (keys.earlier hlater)).committed commutes correct keys hlater
          (run_phased (hidle _) (hfounded.genesis _) (hlocal .initiator))
          (run_handshaken (hidle _) (hfounded.genesis _) (hlocal .initiator)) hdelivered hhandshake
          hmove hturn hqueues

omit [DecidableEq ι] in
theorem Exchange.Invariant.delivered {hybrid : HybridSecrets}
    {context : FixedBytes 32} {exchange : Exchange} {ledger : Ledger}
    (inv : Exchange.Invariant provider privateKey hybrid context exchange ledger)
    {record : AcceptedRecord} (hrecord : record ∈ exchange.accepted) :
    (∃ sent ∈ exchange.sent, sent.packet = record.packet) ∧
      ∀ sent ∈ exchange.sent, sent.packet = record.packet →
        sent = ⟨record.receiver.other, record.packet, record.plaintext⟩ := by
  obtain ⟨e, n, _, he, haccepted, howner, hsent⟩ := inv.accepted hrecord
  refine ⟨hsent, fun sent hmem hpacket => ?_⟩
  obtain ⟨e', n', he', hsent', howner'⟩ := inv.sent hmem
  rw [hpacket] at hsent'
  obtain ⟨rfl, rfl⟩ := inv.linked.packet_unique he he' haccepted hsent'
  have hplain := (Prod.mk.inj (Option.some.inj (haccepted.symm.trans hsent'))).2
  obtain ⟨sender, packet, plaintext⟩ := sent
  cases hpacket
  cases howner'.symm.trans howner
  cases hplain
  rfl

/-- In every joint run of two stores a record is durably accepted only as the other party durably
sent it, and at most once; and what was ever pending at a party are its sent packets and its
accepted plaintexts. -/
theorem records_delivered (kdf : KdfSeparation provider) (aead : AeadBinding provider)
    (commutes : X25519Commutes provider) (correct : MlKemCorrect provider)
    (hidle : ∀ party, (c₀ party).allIdle) (hfounded : Founded (worldsOf c₀))
    (hdistinct : ∀ party party' token token' publicKey,
      (worldsOf c party).PublicOf provider token publicKey →
      (worldsOf c party').PublicOf provider token' publicKey → party = party' ∧ token = token')
    (h : (system provider).Joint Transmits c₀ log c) :
    (∀ record ∈ acceptedRecords log,
      (∃ sent ∈ sentRecords log, sent.packet = record.packet) ∧
      ∀ sent ∈ sentRecords log, sent.packet = record.packet →
        sent = ⟨record.receiver.other, record.packet, record.plaintext⟩) ∧
    ((acceptedRecords log).map AcceptedRecord.packet).Nodup ∧
    (∀ party packet, (worldsOf c party).Pended (.packet packet) →
      ∃ plaintext, ⟨party, packet, plaintext⟩ ∈ sentRecords log) ∧
    ∀ party plaintext, (worldsOf c party).Pended (.plaintext plaintext) →
      ∃ packet, ⟨party, packet, plaintext⟩ ∈ acceptedRecords log := by
  obtain ⟨privateKey, hissued⟩ := exists_privateKey (worldsOf c)
  have hsession := joint_session commutes correct hidle hfounded h
    ⟨hissued, fun hpublic hpublic' => hdistinct _ _ _ _ _ hpublic hpublic'⟩
  generalize sentRecords log = sent at hsession
  generalize acceptedRecords log = accepted at hsession
  cases hsession with
  | opening opening =>
    exact ⟨fun _ hrecord => absurd hrecord List.not_mem_nil, List.nodup_nil,
      fun _ _ hpended => absurd hpended opening.unpended,
      fun _ _ hpended => absurd hpended opening.unpended⟩
  | running derived reachable mirrors =>
    obtain ⟨ledger, inv⟩ := Exchange.reachable_invariant kdf aead
      (HybridSecrets.derive_hybridRoot derived) reachable
    exact ⟨fun _ hrecord => inv.delivered hrecord, inv.once, fun _ _ => mirrors.carried,
      fun _ _ => mirrors.held⟩

end

/-! ## A record that is delivered -/

namespace Delivered

def header (number : Nat) : Bytes :=
  match RatchetHeader.encode ⟨.replicate 32 1, 0, number⟩ with
  | .ok bytes => bytes
  | .error _ => []

def seals : List (FixedBytes 32 × FixedBytes 12 × Bytes × Bytes) :=
  [(.replicate 32 1, .replicate 12 2, (FixedBytes.zero 32).toList, dClientConfirm),
   (.replicate 32 6, .replicate 12 7, recordAad (.zero 32) (header 0), [1, 2, 3]),
   (.replicate 32 9, .replicate 12 10, recordAad (.zero 32) (header 1), [4, 5])]

def derivations : List Derivation :=
  let zero := (FixedBytes.zero 32).toList
  let shared := List.replicate 32 3 ++ zero
  [.hkdf zero shared (dHybridRoot ++ zero), .hkdf zero shared (dClientKey ++ zero),
   .hkdf zero shared (dClientNonce ++ zero), .hkdf zero shared (dAcceptKey ++ zero),
   .expand (.replicate 32 0) (dInitialRoot ++ zero), .expand (.replicate 32 0) (dChainI2R ++ zero),
   .expand (.replicate 32 5) (dMessageKey ++ bigEndian 4 0),
   .expand (.replicate 32 5) (dNonce ++ bigEndian 4 0),
   .expand (.replicate 32 5) (dNextChain ++ bigEndian 4 0),
   .expand (.replicate 32 8) (dMessageKey ++ bigEndian 4 1),
   .expand (.replicate 32 8) (dNonce ++ bigEndian 4 1),
   .expand (.replicate 32 8) (dNextChain ++ bigEndian 4 1)]

def tag (index : Nat) : Bytes := List.replicate 16 (UInt8.ofNat index)

def provider : Provider :=
  { tableProvider [] derivations with
    aeadSeal := fun key nonce data plaintext =>
      match seals.idxOf? (key, nonce, data, plaintext) with
      | some index => .ok (plaintext ++ tag index)
      | none => .error unavailable
    aeadOpen := fun key nonce data sealedText =>
      let plaintext := sealedText.take (sealedText.length - 16)
      match seals.idxOf? (key, nonce, data, plaintext) with
      | some index =>
        if sealedText = plaintext ++ tag index then .ok plaintext else .error unavailable
      | none => .error unavailable
    mlDsa65Public := fun _ => List.replicate mlDsa65PublicKeyBytes 0
    mlDsa65Sign := fun _ _ => List.replicate mlDsa65SignatureBytes 0
    mlKem768Public := fun _ => List.replicate mlKem768PublicKeyBytes 0
    mlKem768Encapsulate := fun _ _ => .ok (List.replicate mlKem768CiphertextBytes 0, .zero 32)
    mlKem768Decapsulate := fun _ _ => .ok (.zero 32) }

theorem kdfSeparation : KdfSeparation provider :=
  let table := @TableProvider.kdfSeparation [] derivations (by decide)
  ⟨table.hkdf, table.expand, table.separate⟩

theorem seals_getElem {index : Nat} {sealing : FixedBytes 32 × FixedBytes 12 × Bytes × Bytes}
    (h : seals.idxOf? sealing = some index) : index < 3 ∧ seals[index]? = some sealing := by
  obtain ⟨hlt, hget, _⟩ := List.idxOf?_eq_some_iff.mp h
  exact ⟨hlt, List.getElem?_eq_some_iff.mpr ⟨hlt, hget⟩⟩

theorem tag_injective {index index' : Nat} (hindex : index < 3) (hindex' : index' < 3)
    (h : tag index = tag index') : index = index' := by
  have hbyte := (List.cons.inj h).1
  have hnat := congrArg UInt8.toNat hbyte
  rw [UInt8.toNat_ofNat', UInt8.toNat_ofNat'] at hnat
  omega

theorem aeadBinding : AeadBinding provider := by
  intro key key' nonce nonce' data data' plaintext plaintext' sealedText hseal hopen
  simp only [provider] at hseal hopen
  split at hseal
  · next index hindex =>
    split at hopen
    · next index' hindex' =>
      split at hopen
      · next hsealed =>
        cases hseal
        cases hopen
        obtain ⟨hlt, hget⟩ := seals_getElem hindex
        obtain ⟨hlt', hget'⟩ := seals_getElem hindex'
        obtain ⟨hsame, htag⟩ := List.append_inj' hsealed (by simp [tag])
        cases tag_injective hlt hlt' htag
        rw [← hsame] at hget' ⊢
        cases hget.symm.trans hget'
        exact ⟨rfl, rfl, rfl, rfl⟩
      · cases hopen
    · cases hopen
  · cases hseal

theorem mlKemCorrect : MlKemCorrect provider := by
  intro seed entropy secret secret' ciphertext hencapsulate hdecapsulate
  cases hencapsulate
  cases hdecapsulate
  rfl

theorem x25519Commutes : X25519Commutes provider := @TableProvider.x25519Commutes [] derivations

def prekey : PrekeyBundle := { Waiting.prekey with x25519Public := .replicate 32 2 }

def packet : FirstPacket :=
  { Refused.packet with
    prekey, initiatorX25519Public := .replicate 32 1
    clientConfirmCiphertext := ⟨dClientConfirm, by decide⟩ }

def record : Bytes := header 0 ++ [1, 2, 3] ++ tag 1

def secondRecord : Bytes := header 1 ++ [4, 5] ++ tag 2

def create : Operation :=
  .createFirstPacket Waiting.identity ⟨Waiting.identity, .zero 32⟩ (.zero 32) (.zero 32) ⟨⟨0⟩, ⟨1⟩⟩
    prekey ⟨2⟩ ⟨3⟩

def accept : Operation :=
  .acceptFirstPacket ⟨Waiting.identity, .zero 32⟩ Waiting.identity (.zero 32) packet

def initiatorKeys : List (Nat × KeyRecord) :=
  [(0, ⟨.adopted, .ed25519 (.zero 32)⟩), (1, ⟨.adopted, .mlDsa65 (.zero 32)⟩),
    (2, ⟨.staged, .x25519 (.replicate 32 1)⟩), (3, ⟨.adopted, .mlKemEntropy (.zero 32)⟩)]

def responderKeys : List (Nat × KeyRecord) :=
  [(0, ⟨.adopted, .ed25519 (.zero 32)⟩), (1, ⟨.adopted, .mlDsa65 (.zero 32)⟩),
    (2, ⟨.staged, .x25519 (.replicate 32 2)⟩), (3, ⟨.staged, .mlKem768 (.zero 64)⟩)]

def initiator : World := .stocked .initiator initiatorKeys (by decide)

def responder : World := .stocked .responder responderKeys (by decide)

def check : (request : Request) → World → Reply request × World
  | .x25519Public (.staged handle), w =>
    if ((w.keys handle.custodyToken).any (·.is .staged .x25519Private)) = true then
      serve provider 0 (.x25519Public (.staged handle)) w
    else (.error unavailable, w)
  | request, w => serve provider 0 request w

theorem handles_check (request : Request) (w : World) :
    handles provider w request (check request w).1 (check request w).2 := by
  cases request with
  | x25519Public handle =>
    cases handle with
    | adopted handle => exact handles_serve provider 0 _ w
    | staged handle =>
      rw [check]
      split
      · exact handles_serve provider 0 _ w
      · exact ⟨rfl, fun _ hok => by cases hok⟩
  | _ => exact handles_serve provider 0 _ w

theorem checksStaged_check (request : Request) (w : World) :
    ChecksStaged ⟨w, request, (check request w).1, (check request w).2⟩ := by
  cases request with
  | x25519Public handle =>
    cases handle with
    | adopted handle => trivial
    | staged handle =>
      by_cases hstaged : ((w.keys handle.custodyToken).any (·.is .staged .x25519Private)) = true
      · rw [check, if_pos hstaged]
        cases hread : (serve provider 0 (.x25519Public (.staged handle)) w).1 with
        | error e => trivial
        | ok value =>
          rw [Option.any_eq_true] at hstaged
          exact hstaged
      · rw [check, if_neg hstaged]
        trivial
  | _ => trivial

def resting (worlds : Party → World) (party : Party) : (system provider).Config Unit :=
  atRest provider Unit (worlds party)

def perform (operation : Operation) : Call := .operate Waiting.line operation

def after (call : Call) (w : World) : World := ((call.program provider).run check w).2

theorem resting_update (worlds : Party → World) (party : Party) (w : World) :
    Function.update (resting worlds) party (atRest provider Unit w) =
      resting (Function.update worlds party w) := by
  funext other
  by_cases hother : other = party
  · subst hother
    rw [Function.update_self, resting, Function.update_self]
  · rw [Function.update_of_ne hother, resting, resting, Function.update_of_ne hother]

theorem joint_call {worlds : Party → World} {c₀ : Party → (system provider).Config Unit}
    {log : List (Party × (system provider).Event Unit)}
    (h : (system provider).Joint Transmits c₀ log (resting worlds)) (party : Party)
    (call : Call) (hdelivered : call.Delivered worlds party) {w : World}
    (hafter : after call (worlds party) = w) :
    ∃ log', (system provider).Joint Transmits c₀ log'
      (resting (Function.update worlds party w)) := by
  have hidle : (resting worlds party).thread () = .idle := rfl
  have hstart : (system provider).Run
      (fun d event => Transmits (Function.update (resting worlds) party d) party event)
      (resting worlds party) [] (resting worlds party) := .start
  have hcall := hstart.call handles_check hidle call ?_ ?_ ?_
  · have hjoint : (system provider).Joint Transmits c₀ _ (Function.update (resting worlds) party
        (atRest provider Unit (after call (worlds party)))) :=
      h.extend party (fun _ _ hguard => hguard) hcall
    rw [resting_update, hafter] at hjoint
    exact ⟨_, hjoint⟩
  · rw [Function.update_eq_self]
    exact hdelivered
  · intro past x future rest htrace
    have hx : x ∈ ((system provider).program call).trace check (resting worlds party).world :=
      htrace ▸ List.mem_append_right _ List.mem_cons_self
    exact Program.forall_trace checksStaged_check _ _ x hx
  · exact fun _ _ _ _ => trivial

def pair (initiator responder : World) : Party → World
  | .initiator => initiator
  | .responder => responder

theorem pair_initiator (initiator responder w : World) :
    Function.update (pair initiator responder) .initiator w = pair w responder := by
  funext party
  cases party
  · exact Function.update_self _ _ _
  · exact Function.update_of_ne (by decide) _ _

theorem pair_responder (initiator responder w : World) :
    Function.update (pair initiator responder) .responder w = pair initiator w := by
  funext party
  cases party
  · exact Function.update_of_ne (by decide) _ _
  · exact Function.update_self _ _ _

def admitted : World := after (perform Refused.admission) responder

def waiting : World := after (perform create) initiator

def answered : World := after (perform accept) admitted

def opened : World := after (perform (.verifySessionAccept Agreed.answer)) waiting

def sent : World := after (perform (.sendRecord [1, 2, 3] none)) opened

def received : World := after (perform (.receiveRecord record none)) answered

def item : PendingItem := ⟨pendingId provider (label "record-send") record, .packet record⟩

def dispatch : Call := .serve Waiting.line (.dispatchPending item.id)

def dispatched : World := after dispatch sent

def sentAgain : World := after (perform (.sendRecord [4, 5] none)) dispatched

def offersPacket (w : World) (packet : FirstPacket) : Bool :=
  w.offers.any fun offered => offered = packet

def stores (answer : SessionAccept) : Phase → Bool
  | .established _ (some _) (some accept) _ _ => accept = answer
  | _ => false

def pends (w : World) (kind : PendingKind) : Bool :=
  w.snapshots.entries.any fun snapshot => snapshot.pending.any fun item => item.kind = kind

def drops (item : PendingItem) (x : Program.Exchange interface World) : Bool :=
  item ∈ x.before.durable.pending ∧ item ∉ x.after.durable.pending

def closes (x : Program.Exchange interface World) : Bool :=
  x.before.durable.pending ≠ [] ∧ x.after.durable ≠ x.before.durable

theorem initiator_evaluates : offersPacket waiting packet = true ∧
    pends sent (.packet record) = true ∧ pends sentAgain (.packet record) = true ∧
    pends sentAgain (.packet secondRecord) = true ∧ sentAgain.issued = initiator.issued ∧
    sentAgain.durable.state.phase.references = [(.x25519Private, 2)] ∧
    ((dispatch.program provider).trace check sent).any (drops item) = true ∧
    (((perform .deleteSession).program provider).trace check sentAgain).any closes = true := by
  decide +kernel

theorem responder_evaluates :
    admitted.durable.state.phase.references = [(.x25519Private, 2), (.mlKem768Private, 3)] ∧
    stores Agreed.answer answered.durable.state.phase = true ∧
    pends received (.plaintext [1, 2, 3]) = true ∧ received.issued = responder.issued ∧
    received.durable.state.phase.references = [(.x25519Private, 2)] := by
  decide +kernel

theorem founded : Founded (worldsOf (resting (pair initiator responder))) where
  genesis party := by
    cases party
    · exact @World.stocked_genesis _ initiatorKeys (by decide) (.inl rfl) (by decide)
    · exact @World.stocked_genesis _ responderKeys (by decide) (.inr rfl) (by decide)
  initiator := rfl
  responder := rfl

theorem answers_of_stores {w : World} {answer : SessionAccept}
    (h : stores answer w.durable.state.phase = true) : w.Answers answer := by
  cases hphase : w.durable.state.phase with
  | established _ replay accept =>
    rw [hphase] at h
    cases replay with
    | none => cases h
    | some transcript =>
      cases accept with
      | none => cases h
      | some accept =>
        cases of_decide_eq_true h
        exact ⟨_, History.newest_mem _, transcript, congrArg Phase.accepted hphase⟩
  | _ =>
    rw [hphase] at h
    cases h

theorem pended_of_pends {w : World} {kind : PendingKind} (h : pends w kind = true) :
    w.Pended kind := by
  obtain ⟨snapshot, hsnapshot, hpends⟩ := List.any_eq_true.mp h
  obtain ⟨item, hitem, hkind⟩ := List.any_eq_true.mp hpends
  exact ⟨snapshot, hsnapshot, item, hitem, of_decide_eq_true hkind⟩

theorem mem_offers {w : World} {packet : FirstPacket} (h : offersPacket w packet = true) :
    packet ∈ w.offers := by
  obtain ⟨offered, hoffered, hsame⟩ := List.any_eq_true.mp h
  exact of_decide_eq_true hsame ▸ hoffered

theorem waiting_offered : packet ∈ waiting.offers := mem_offers initiator_evaluates.1

theorem answered_answers : answered.Answers Agreed.answer :=
  answers_of_stores responder_evaluates.2.1

theorem sent_carried : sent.Carried record := pended_of_pends initiator_evaluates.2.1

theorem sentAgain_carried : sentAgain.Carried record ∧ sentAgain.Carried secondRecord :=
  let ⟨_, _, hfirst, hsecond, _⟩ := initiator_evaluates
  ⟨pended_of_pends hfirst, pended_of_pends hsecond⟩

theorem sentAgain_issued : sentAgain.issued = initiator.issued := initiator_evaluates.2.2.2.2.1

theorem sentAgain_references :
    sentAgain.durable.state.phase.references = [(.x25519Private, 2)] :=
  initiator_evaluates.2.2.2.2.2.1

theorem dispatch_drops : ((dispatch.program provider).trace check sent).any (drops item) = true :=
  initiator_evaluates.2.2.2.2.2.2.1

theorem deletion_closes :
    (((perform .deleteSession).program provider).trace check sentAgain).any closes = true :=
  initiator_evaluates.2.2.2.2.2.2.2

theorem received_held : received.Pended (.plaintext [1, 2, 3]) :=
  pended_of_pends responder_evaluates.2.2.1

theorem received_issued : received.issued = responder.issued := responder_evaluates.2.2.2.1

theorem received_references : received.durable.state.phase.references = [(.x25519Private, 2)] :=
  responder_evaluates.2.2.2.2

def Joined (initiator' responder' : World) : Prop :=
  ∃ log, (system provider).Joint Transmits (resting (pair initiator responder)) log
    (resting (pair initiator' responder'))

theorem Joined.initiator {w w' : World} (h : Joined w w') (call : Call)
    (hdelivered : call.Delivered (pair w w') .initiator) {next : World}
    (hafter : after call w = next) : Joined next w' := by
  obtain ⟨log, hrun⟩ := h
  have hnext := joint_call hrun .initiator call hdelivered hafter
  rwa [pair_initiator] at hnext

theorem Joined.responder {w w' : World} (h : Joined w w') (call : Call)
    (hdelivered : call.Delivered (pair w w') .responder) {next : World}
    (hafter : after call w' = next) : Joined w next := by
  obtain ⟨log, hrun⟩ := h
  have hnext := joint_call hrun .responder call hdelivered hafter
  rwa [pair_responder] at hnext

theorem joined_admitted : Joined initiator admitted :=
  Joined.responder ⟨[], .start⟩ (perform Refused.admission) trivial rfl

theorem joined_answered : Joined waiting answered :=
  (joined_admitted.initiator (perform create) trivial rfl).responder (perform accept)
    waiting_offered rfl

theorem joined_sent : Joined sent answered :=
  (joined_answered.initiator (perform (.verifySessionAccept Agreed.answer)) answered_answers
    rfl).initiator (perform (.sendRecord [1, 2, 3] none)) trivial rfl

theorem joined_received : Joined sent received :=
  joined_sent.responder (perform (.receiveRecord record none)) ⟨.initiator, sent_carried⟩ rfl

theorem joined_sentAgain : Joined sentAgain received :=
  (joined_received.initiator dispatch trivial rfl).initiator (perform (.sendRecord [4, 5] none))
    trivial rfl

def Reaches (party : Party) (log : List ((system provider).Event Unit)) (w : World) : Prop :=
  (system provider).Run (Checks party) (resting (pair initiator responder) party) log
    (atRest provider Unit w)

theorem Joined.reaches {w w' : World} (h : Joined w w') (party : Party) :
    ∃ log, Reaches party log (pair w w' party) := by
  obtain ⟨log, hrun⟩ := h
  exact ⟨System.eventsOf party log, hrun.run_of checks_of_transmits party⟩

theorem Reaches.calls {party : Party} {log : List ((system provider).Event Unit)} {w : World}
    (h : Reaches party log w) (call : Call) : ∃ log' c,
    (system provider).Run (Checks party) (resting (pair initiator responder) party) log' c ∧
    c.thread () = .busy call w ((call.program provider).trace check w)
      (.done ((call.program provider).run check w).1) := by
  refine h.exists_busy handles_check rfl call (by rintro _ _ _ ⟨⟩) ?_
  rintro past x future rest htrace _ _ _ ⟨⟩
  have hx : x ∈ (call.program provider).trace check w :=
    htrace ▸ List.mem_append_right _ List.mem_cons_self
  exact Program.forall_trace checksStaged_check _ _ x hx

theorem x25519_of_initiator {token : Nat} {key : FixedBytes 32}
    (h : (token, .x25519 key) ∈ initiator.issued) : token = 2 ∧ key = .replicate 32 1 := by
  simp [initiator, World.stocked, initiatorKeys] at h
  exact h

theorem x25519_of_responder {token : Nat} {key : FixedBytes 32}
    (h : (token, .x25519 key) ∈ responder.issued) : token = 2 ∧ key = .replicate 32 2 := by
  simp [responder, World.stocked, responderKeys] at h
  exact h

theorem joined_issued (party : Party) :
    (worldsOf (resting (pair sentAgain received)) party).issued =
      (pair initiator responder party).issued := by
  cases party <;> simp only [worldsOf, resting, atRest, pair]
  · exact sentAgain_issued
  · exact received_issued

theorem distinct_publics (party party' : Party) (token token' : Nat) (publicKey : FixedBytes 32)
    (h : (worldsOf (resting (pair sentAgain received)) party).PublicOf provider token publicKey)
    (h' : (worldsOf (resting (pair sentAgain received)) party').PublicOf provider token'
      publicKey) :
    party = party' ∧ token = token' := by
  obtain ⟨key, hkey, rfl⟩ := h
  obtain ⟨key', hkey', hsame⟩ := h'
  cases hsame
  rw [joined_issued] at hkey hkey'
  cases party with
  | initiator =>
    obtain ⟨rfl, hfirst⟩ := x25519_of_initiator hkey
    cases party' with
    | initiator => exact ⟨rfl, (x25519_of_initiator hkey').1.symm⟩
    | responder =>
      have hkeys := hfirst.symm.trans (x25519_of_responder hkey').2
      exact absurd hkeys (by decide)
  | responder =>
    obtain ⟨rfl, hfirst⟩ := x25519_of_responder hkey
    cases party' with
    | initiator =>
      have hkeys := hfirst.symm.trans (x25519_of_initiator hkey').2
      exact absurd hkeys (by decide)
    | responder => exact ⟨rfl, (x25519_of_responder hkey').1.symm⟩

/-- A record that the initiator sent and the responder holds. -/
theorem records_delivered_record : ∃ log c packet, (system provider).Joint Transmits
      (resting (pair initiator responder)) log c ∧
    ⟨.responder, packet, [1, 2, 3]⟩ ∈ acceptedRecords log ∧
    ⟨.initiator, packet, [1, 2, 3]⟩ ∈ sentRecords log := by
  obtain ⟨log, hrun⟩ := joined_sentAgain
  have hall := fun hdistinct => records_delivered kdfSeparation aeadBinding x25519Commutes
    mlKemCorrect (fun _ => atRest_allIdle _) founded hdistinct hrun
  obtain ⟨hdelivered, _, _, hheld⟩ := hall distinct_publics
  have hheld := hheld .responder [1, 2, 3]
  simp only [worldsOf, resting, atRest, pair] at hheld
  obtain ⟨packet, haccepted⟩ := hheld received_held
  obtain ⟨⟨sent, hsent, hpacket⟩, honly⟩ := hdelivered _ haccepted
  cases honly sent hsent hpacket
  exact ⟨log, _, packet, hrun, haccepted, hsent⟩

/-- The keys of an admitted pair, of which the acceptance keeps one, and the key of the
initiator. -/
theorem custody_conservation_accepted :
    (∃ log, Reaches .responder log admitted) ∧ admitted.keys.adopted .x25519Private 2 ∧
      admitted.keys.adopted .mlKem768Private 3 ∧
    (∃ log, Reaches .responder log received) ∧ received.keys.adopted .x25519Private 2 ∧
      ¬received.keys.adopted .mlKem768Private 3 ∧
    (∃ log, Reaches .initiator log sentAgain) ∧ sentAgain.keys.adopted .x25519Private 2 := by
  obtain ⟨log, hadmitted⟩ := joined_admitted.reaches .responder
  obtain ⟨log', hreceived⟩ := joined_sentAgain.reaches .responder
  obtain ⟨log'', hsent⟩ := joined_sentAgain.reaches .initiator
  have hready := custody_conservation (atRest_allIdle _) (founded.genesis .responder) hadmitted
  have hheld := custody_conservation (atRest_allIdle _) (founded.genesis .responder) hreceived
  have hkept := custody_conservation (atRest_allIdle _) (founded.genesis .initiator) hsent
  simp only [atRest, pair, responder_evaluates.1, received_references, sentAgain_references]
    at hready hheld hkept
  refine ⟨⟨log, hadmitted⟩, (hready .x25519Private rfl 2).mpr (by decide),
    (hready .mlKem768Private rfl 3).mpr (by decide), ⟨log', hreceived⟩,
    (hheld .x25519Private rfl 2).mpr (List.mem_singleton_self _), fun hadopted => ?_,
    ⟨log'', hsent⟩, (hkept .x25519Private rfl 2).mpr (List.mem_singleton_self _)⟩
  exact absurd ((hheld .mlKem768Private rfl 3).mp hadopted) (by decide)

/-- The initiator sends two records. -/
theorem coordinates_never_reused_sent : ∃ log, Reaches .initiator log sentAgain ∧
    record ∈ sentPackets log ∧ secondRecord ∈ sentPackets log ∧
    ((sentPackets log).map recordCoordinate).Nodup := by
  obtain ⟨log, hrun⟩ := joined_sentAgain.reaches .initiator
  have hdistinct := distinct_publics .initiator .initiator
  have hall := fun hdistinct => coordinates_never_reused (atRest_allIdle _)
    (founded.genesis .initiator) (fun hguard => hguard _ _ _ rfl) hdistinct hrun
  simp only [worldsOf, resting, atRest, pair] at hdistinct hall
  obtain ⟨hcarried, _, honce⟩ := hall fun token token' publicKey h h' =>
    (hdistinct token token' publicKey h h').2
  exact ⟨log, hrun, hcarried record sentAgain_carried.1, hcarried secondRecord sentAgain_carried.2,
    honce⟩

/-- A record that is dispatched after the carrier took it, and one that is dropped by a deletion. -/
theorem durable_output_dispatched :
    (∃ log c origin trace rest, (system provider).Run (Checks .initiator)
        (resting (pair initiator responder) .initiator) log c ∧
      c.thread () = .busy dispatch origin trace rest ∧
      ∃ earlier x later, trace = earlier ++ x :: later ∧ item ∈ x.before.durable.pending ∧
        item ∉ x.after.durable.pending ∧
        ∃ y ∈ earlier, y.request = .carry record ∧ accepted y.request y.reply) ∧
    ∃ log c origin trace rest, (system provider).Run (Checks .initiator)
        (resting (pair initiator responder) .initiator) log c ∧
      c.thread () = .busy (perform .deleteSession) origin trace rest ∧
      ∃ x ∈ trace, x.before.durable.pending ≠ [] ∧ x.after.durable.pending = [] ∧
        ∀ snapshot ∈ c.world.snapshots.entries, WellQueued snapshot.pending := by
  constructor
  · obtain ⟨_, hreached⟩ := joined_sent.reaches .initiator
    obtain ⟨log, c, hrun, hbusy⟩ := hreached.calls dispatch
    obtain ⟨x, hx, hdrops⟩ := List.any_eq_true.mp dispatch_drops
    obtain ⟨hmem, hgone⟩ := of_decide_eq_true hdrops
    obtain ⟨earlier, later, htrace⟩ := List.append_of_mem hx
    refine ⟨log, c, _, _, _, hrun, hbusy, earlier, x, later, htrace, hmem, hgone, ?_⟩
    have horderly := (durable_output (atRest_allIdle _) (founded.genesis .initiator) hrun).2
      () _ _ _ _ hbusy earlier x later htrace
    rcases horderly.leaves item hmem hgone with ⟨_, heq⟩ | ⟨_, _, y, hy, hrequest, htook⟩
    · cases heq
    · exact ⟨y, hy, hrequest, htook⟩
  · obtain ⟨_, hreached⟩ := joined_sentAgain.reaches .initiator
    obtain ⟨log, c, hrun, hbusy⟩ := hreached.calls (perform .deleteSession)
    obtain ⟨x, hx, hcloses⟩ := List.any_eq_true.mp deletion_closes
    obtain ⟨hpending, hmoved⟩ := of_decide_eq_true hcloses
    obtain ⟨earlier, later, htrace⟩ := List.append_of_mem hx
    obtain ⟨hqueued, horderly⟩ := durable_output (atRest_allIdle _)
      (founded.genesis .initiator) hrun
    exact ⟨log, c, _, _, _, hrun, hbusy, x, hx, hpending,
      (horderly () _ _ _ _ hbusy earlier x later htrace).empties _ rfl hmoved, hqueued⟩

end Delivered

end LicoArc
