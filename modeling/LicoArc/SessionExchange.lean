import LicoArc.Coordinates
import LicoArc.Counterparts
import LicoArc.RecordSafety
import LicoArc.SharedKeys

/-!
# The exchange that two stores follow

Two stores hand to each other what they have made durable. The answer to the
first packet starts a record exchange between the durable ratchets of both, and
every commit of a record is one of its steps.
-/

namespace LicoArc

open Backend

/-! ## The exchange that a handshake starts -/

/-- The exchange of two ratchets that nothing was sent under, with their tokens kept apart. -/
def Exchange.opened (initiator responder : RatchetState) : Exchange where
  state
    | .initiator => initiator.rename (Party.token .initiator)
    | .responder => responder.rename (Party.token .responder)
  sent := []
  accepted := []
  publics := [initiator.localPublic, responder.localPublic]

section

variable {provider : Provider} {w w' : World} {packet : FirstPacket}
  {transcript transcript' context : FixedBytes 32} {hybrid : HybridSecrets}
  {accept : SessionAccept} {ratchet ratchet' : RatchetState}

theorem Created.publicOf (h : Created provider w packet transcript context hybrid ratchet) :
    w.PublicOf provider ratchet.localPrivate.custodyToken ratchet.localPublic := by
  obtain ⟨key, hkey, hoffered⟩ := h.offered
  obtain ⟨_, _, _, hratchet⟩ := RatchetState.initiator_eq_ok.mp h.ratchet
  refine ⟨key, hkey, ?_⟩
  rw [hratchet]
  exact hoffered.publicKey

theorem Accepted.publicOf (h : Accepted provider w packet transcript accept ratchet) :
    w.PublicOf provider ratchet.localPrivate.custodyToken ratchet.localPublic := by
  obtain ⟨key, hybrid, hkey, hanswered, hresponder⟩ := h.ratchet
  obtain ⟨_, _, _, hratchet⟩ := RatchetState.responder_eq_ok.mp hresponder
  refine ⟨key, hkey, ?_⟩
  rw [hratchet]
  exact hanswered.publicKey

theorem Created.starts {privateKey : Nat → FixedBytes 32} {worlds : Party → World}
    (commutes : X25519Commutes provider) (correct : MlKemCorrect provider)
    (keys : SharedKeys provider privateKey worlds)
    (h : Created provider (worlds .initiator) packet transcript context hybrid ratchet)
    (h' : Accepted provider (worlds .responder) packet transcript' accept ratchet') :
    Exchange.start provider privateKey hybrid context
        (ratchet.localPrivate.rename (Party.token .initiator))
        (ratchet'.localPrivate.rename (Party.token .responder)) =
      .ok (.opened ratchet ratchet') := by
  obtain ⟨_, rfl⟩ := h.context_eq h'
  have hpublic : Exchange.publicOf provider privateKey
      (ratchet.localPrivate.rename (Party.token .initiator)).custodyToken = ratchet.localPublic :=
    (keys.publicOf h.publicOf).symm
  have hpublic' : Exchange.publicOf provider privateKey
      (ratchet'.localPrivate.rename (Party.token .responder)).custodyToken = ratchet'.localPublic :=
    (keys.publicOf h'.publicOf).symm
  obtain ⟨_, _, hoffered⟩ := h.offered
  obtain ⟨_, _, _, hanswered, hresponder⟩ := h'.ratchet
  cases hoffered.agrees commutes correct hanswered
  obtain ⟨root, chain, hkeys, hratchet⟩ := RatchetState.initiator_eq_ok.mp h.ratchet
  obtain ⟨root', chain', hkeys', hratchet'⟩ := RatchetState.responder_eq_ok.mp hresponder
  have hlocal : ratchet.localPublic = packet.initiatorX25519Public := by rw [hratchet]
  have hlocal' : ratchet'.localPublic = packet.prekey.x25519Public := by rw [hratchet']
  have hinitiator : RatchetState.initiator provider hybrid accept.sessionContextDigest
      (ratchet.localPrivate.rename (Party.token .initiator)) ratchet.localPublic
      ratchet'.localPublic = .ok (ratchet.rename (Party.token .initiator)) := by
    refine RatchetState.initiator_eq_ok.mpr ⟨root, chain, hkeys, ?_⟩
    rw [hlocal, hlocal', hratchet]
    rfl
  have hresponder : RatchetState.responder provider hybrid accept.sessionContextDigest
      (ratchet'.localPrivate.rename (Party.token .responder)) ratchet'.localPublic
      ratchet.localPublic = .ok (ratchet'.rename (Party.token .responder)) := by
    refine RatchetState.responder_eq_ok.mpr ⟨root', chain', hkeys', ?_⟩
    rw [hlocal, hlocal', hratchet']
    rfl
  simp only [Exchange.start, hpublic, hpublic', hinitiator, hresponder, Except.ok_bind,
    Except.pure_eq]
  rfl

end

/-! ## What the network hands over -/

def World.Answers (w : World) (accept : SessionAccept) : Prop :=
  ∃ snapshot ∈ w.snapshots.entries, ∃ transcript,
    snapshot.state.phase.accepted = some (transcript, accept)

/-- What a call is handed was durable at one of the parties: a record at either of them, a first
packet and an answer at the other. -/
def Operation.Delivered (worlds : Party → World) (party : Party) : Operation → Prop
  | receiveRecord packet _ => ∃ sender, (worlds sender).Carried packet
  | acceptFirstPacket _ _ _ packet => packet ∈ (worlds party.other).offers
  | verifySessionAccept accept => (worlds party.other).Answers accept
  | _ => True

def Call.Delivered (worlds : Party → World) (party : Party) : Call → Prop
  | operate _ operation => operation.Delivered worlds party
  | serve _ _ => True

theorem Call.Delivered.later {worlds worlds' : Party → World} {party : Party} {call : Call}
    (h : call.Delivered worlds party) (hlater : ∀ party, (worlds party).Later (worlds' party)) :
    call.Delivered worlds' party := by
  cases call with
  | serve => trivial
  | operate line operation =>
    cases operation with
    | receiveRecord packet =>
      obtain ⟨sender, hcarried⟩ := h
      exact ⟨sender, World.Pended.later hcarried (hlater sender)⟩
    | acceptFirstPacket _ _ _ packet =>
      obtain ⟨snapshot, hsnapshot, hoffer⟩ := List.mem_filterMap.mp h
      exact List.mem_filterMap.mpr ⟨snapshot, (hlater _).snapshots.mem hsnapshot, hoffer⟩
    | verifySessionAccept accept =>
      obtain ⟨snapshot, hsnapshot, hanswer⟩ := h
      exact ⟨snapshot, (hlater _).snapshots.mem hsnapshot, hanswer⟩
    | _ => trivial

/-! ## The records of a log -/

def plaintextsOf (kinds : List PendingKind) : List Bytes :=
  kinds.filterMap fun kind => match kind with
    | .plaintext plaintext => some plaintext
    | _ => none

def Operation.record : Operation → Option Bytes
  | receiveRecord packet _ => some packet
  | _ => none

def Operation.sent (operation : Operation) (party : Party) (made : List PendingKind) :
    Option SentRecord := do
  let plaintext ← operation.payload
  let packet ← (packetsOf made).head?
  return ⟨party, packet, plaintext⟩

def Operation.received (operation : Operation) (party : Party) (made : List PendingKind) :
    Option AcceptedRecord := do
  let packet ← operation.record
  let plaintext ← (plaintextsOf made).head?
  return ⟨party, packet, plaintext⟩

section

variable {ι : Type} {provider : Provider}

def sentBy (party : Party) (event : (system provider).Event ι) : Option SentRecord :=
  match event with
  | .exchange _ (.operate _ operation) _ => operation.sent party (appendedBy event)
  | _ => none

def receivedBy (party : Party) (event : (system provider).Event ι) : Option AcceptedRecord :=
  match event with
  | .exchange _ (.operate _ operation) _ => operation.received party (appendedBy event)
  | _ => none

/-- The records that the parties have durably sent, the newest first. -/
def sentRecords (log : List (Party × (system provider).Event ι)) : List SentRecord :=
  log.filterMap fun entry => sentBy entry.1 entry.2

/-- The records that the parties have durably accepted, the newest first. -/
def acceptedRecords (log : List (Party × (system provider).Event ι)) : List AcceptedRecord :=
  log.filterMap fun entry => receivedBy entry.1 entry.2

end

/-! ## The exchange that both stores follow -/

def Phase.opens : Party → Phase → Bool
  | .initiator, initiatorNew | .initiator, initiatorAwaiting _ _ _ _ _ => true
  | .responder, responderReady _ _ => true
  | _, deleted _ => true
  | _, _ => false

/-- A phase from which no further session begins. -/
def Phase.engaged : Phase → Bool
  | initiatorAwaiting _ _ _ _ _ | established _ _ _ _ _ | deleted _ => true
  | _ => false

theorem Phase.engaged_of_settled {phase : Phase} (h : phase.settled = true) :
    phase.engaged = true := by
  cases phase <;> first | rfl | cases h

theorem PhaseMove.keepsEngaged {provider : Provider} {operation : Operation} {phase phase' : Phase}
    (h : PhaseMove provider operation phase phase') (hengaged : phase.engaged = true) :
    phase'.engaged = true ∧ phase.ratchet ≠ none := by
  cases h with
  | verifies => exact ⟨rfl, Option.some_ne_none _⟩
  | continues => exact ⟨rfl, Option.some_ne_none _⟩
  | deletes live =>
    refine ⟨rfl, ?_⟩
    cases phase with
    | initiatorAwaiting => exact Option.some_ne_none _
    | established => exact Option.some_ne_none _
    | deleted highWater => exact absurd rfl (live highWater)
    | _ => cases hengaged
  | _ => cases hengaged

theorem World.referenced_of_ratchet {w : World} {snapshot : Snapshot} {ratchet : RatchetState}
    (hsnapshot : snapshot ∈ w.snapshots.entries)
    (hratchet : snapshot.state.phase.ratchet = some ratchet) :
    w.Referenced ratchet.localPrivate.custodyToken :=
  ⟨snapshot, hsnapshot, .x25519Private, rfl, Phase.ratchet_references hratchet⟩

/-- A move of the store that changes no phase and makes no item. -/
structure World.Idles (w w' : World) : Prop where
  later : w.Later w'
  phase : w'.durable.state.phase = w.durable.state.phase
  entries : ∀ snapshot ∈ w'.snapshots.entries, ∃ old ∈ w.snapshots.entries,
    snapshot.state.phase = old.state.phase ∧ snapshot.pending ⊆ old.pending

namespace World.Idles

variable {w w' : World}

theorem of_snapshots (hlater : w.Later w') (h : w'.snapshots = w.snapshots) : w.Idles w' where
  later := hlater
  phase := by rw [World.durable_of_snapshots h]
  entries snapshot hsnapshot := ⟨snapshot, h ▸ hsnapshot, rfl, List.Subset.refl _⟩

theorem of_settled {revision : Revision} {id : PendingId} (h : w.Settled revision id w') :
    w.Idles w' where
  later := h.later
  phase := by rw [h.state]
  entries snapshot hsnapshot := by
    rw [h.advanced, World.advance_entries] at hsnapshot
    rcases List.mem_cons.mp hsnapshot with rfl | hold
    · exact ⟨w.durable, History.newest_mem _, rfl, List.eraseP_subset⟩
    · exact ⟨snapshot, hold, rfl, List.Subset.refl _⟩

theorem pended (h : w.Idles w') {kind : PendingKind} (hpended : w'.Pended kind) :
    w.Pended kind := by
  obtain ⟨snapshot, hsnapshot, item, hitem, hkind⟩ := hpended
  obtain ⟨old, hold, _, hpending⟩ := h.entries snapshot hsnapshot
  exact ⟨old, hold, item, hpending hitem, hkind⟩

end World.Idles

def Opening (worlds : Party → World) : Prop :=
  ∀ party, ∀ snapshot ∈ (worlds party).snapshots.entries,
    snapshot.pending = [] ∧ snapshot.state.phase.opens party = true

/-- The stores follow the exchange. -/
structure Mirrors (provider : Provider) (worlds : Party → World) (exchange : Exchange) : Prop where
  engaged (party : Party) : (worlds party).durable.state.phase.engaged = true
  state {party : Party} {ratchet : RatchetState} :
    (worlds party).durable.state.phase.ratchet = some ratchet →
    exchange.state party = ratchet.rename party.token ∧ ratchet.localPublic ∈ exchange.publics
  publics {publicKey : FixedBytes 32} : publicKey ∈ exchange.publics → ∃ party token,
    (worlds party).Referenced token ∧ (worlds party).PublicOf provider token publicKey
  carried {party : Party} {packet : Bytes} : (worlds party).Pended (.packet packet) →
    ∃ plaintext, ⟨party, packet, plaintext⟩ ∈ exchange.sent
  held {party : Party} {plaintext : Bytes} : (worlds party).Pended (.plaintext plaintext) →
    ∃ packet, ⟨party, packet, plaintext⟩ ∈ exchange.accepted

/-- What two stores have done together, with the records that were sent and accepted. -/
inductive Session (provider : Provider) (privateKey : Nat → FixedBytes 32)
    (worlds : Party → World) : List SentRecord → List AcceptedRecord → Prop
  | opening (opening : Opening worlds) : Session provider privateKey worlds [] []
  | running {hybrid : HybridSecrets} {x kem transcript core context : FixedBytes 32}
      {exchange : Exchange} (derived :
      HybridSecrets.derive provider x kem transcript core = .ok hybrid)
      (reachable : Exchange.Reachable provider privateKey hybrid context exchange)
        (mirrors : Mirrors provider worlds exchange) :
      Session provider privateKey worlds exchange.sent exchange.accepted

section

variable {provider : Provider} {privateKey : Nat → FixedBytes 32} {worlds worlds' : Party → World}
  {party : Party} {operation : Operation} {exchange : Exchange} {state : EndpointState}
  {pending : List PendingItem} {mutations : List KeyMutation} {made : List PendingKind}

theorem Session.idles {sent : List SentRecord} {accepted : List AcceptedRecord}
    (h : Session provider privateKey worlds sent accepted)
    (hidles : ∀ party, (worlds party).Idles (worlds' party)) :
    Session provider privateKey worlds' sent accepted := by
  cases h with
  | opening opening =>
    refine .opening fun party snapshot hsnapshot => ?_
    obtain ⟨old, hold, hphase, hpending⟩ := (hidles party).entries snapshot hsnapshot
    obtain ⟨hempty, hopens⟩ := opening party old hold
    exact ⟨List.subset_nil.mp (hempty ▸ hpending), hphase ▸ hopens⟩
  | running derived reachable mirrors =>
    refine .running derived reachable {
      engaged := fun party => ?_
      state := fun {party ratchet} hratchet => ?_
      publics := fun hpublic => ?_
      carried := fun hpended => mirrors.carried ((hidles _).pended hpended)
      held := fun hpended => mirrors.held ((hidles _).pended hpended) }
    · rw [(hidles party).phase]
      exact mirrors.engaged party
    · rw [(hidles party).phase] at hratchet
      exact mirrors.state hratchet
    · obtain ⟨party, token, hreferenced, hof⟩ := mirrors.publics hpublic
      exact ⟨party, token, hreferenced.later (hidles party).later, hof.later (hidles party).later⟩

theorem later_update {w : World} (hlater : (worlds party).Later w) (other : Party) :
    (worlds other).Later (Function.update worlds party w other) := by
  by_cases hother : other = party
  · subst hother
    rw [Function.update_self]
    exact hlater
  · rw [Function.update_of_ne hother]
    exact .refl _

theorem World.Pended.of_update {other : Party} {kind : PendingKind}
    (h : (Function.update worlds party
      ((worlds party).advance state pending mutations) other).Pended kind)
    (hqueues : Queues (worlds party).durable.pending made pending) :
    (worlds other).Pended kind ∨ other = party ∧ kind ∈ made := by
  by_cases hother : other = party
  · subst hother
    rw [Function.update_self] at h
    exact (h.of_advance hqueues).imp_right fun hmade => ⟨rfl, hmade⟩
  · rw [Function.update_of_ne hother] at h
    exact .inl h

theorem Queues.of_nil {after : List PendingItem} (h : Queues [] [] after) : after = [] := by
  generalize hmade : ([] : List PendingKind) = made at h
  cases h with
  | appends items => exact List.map_eq_nil_iff.mp hmade.symm
  | drops kept => exact List.sublist_nil.mp kept

theorem Opening.advance (h : Opening worlds)
    (hqueues : Queues (worlds party).durable.pending [] pending)
    (hopens : state.phase.opens party = true) :
    Opening (Function.update worlds party ((worlds party).advance state pending mutations)) := by
  intro other snapshot hsnapshot
  by_cases hother : other = party
  · subst hother
    rw [Function.update_self, World.advance_entries] at hsnapshot
    rcases List.mem_cons.mp hsnapshot with rfl | hold
    · have hempty : (worlds other).durable.pending = [] := (h other _ (History.newest_mem _)).1
      rw [hempty] at hqueues
      exact ⟨hqueues.of_nil, hopens⟩
    · exact h other snapshot hold
  · rw [Function.update_of_ne hother] at hsnapshot
    exact h other snapshot hsnapshot

theorem Opening.unpended (h : Opening worlds) {kind : PendingKind} :
    ¬(worlds party).Pended kind := by
  rintro ⟨snapshot, hsnapshot, item, hitem, _⟩
  rw [(h party snapshot hsnapshot).1] at hitem
  exact absurd hitem List.not_mem_nil

theorem Phased.offered {w : World} {start : Phase} {operations : List Operation}
    (h : Phased provider start operations w) {waiting : Snapshot}
    (hwaiting : waiting ∈ w.snapshots.entries) (hoffer : waiting.state.phase.offer.isSome) :
    w.durable.state.phase = waiting.state.phase ∨ w.durable.state.phase.settled = true := by
  rcases List.mem_cons.mp hwaiting with rfl | hwaiting
  · exact .inl rfl
  · obtain ⟨_, hrun⟩ := (List.pairwise_cons.mp h.ordered).1 waiting hwaiting
    exact hrun.keepsOffer hoffer

theorem Phase.ratchet_of_opens {phase : Phase} (hsettled : phase.settled = true)
    (hopens : phase.opens party = true) : phase.ratchet = none := by
  cases phase with
  | established => cases party <;> cases hopens
  | deleted => rfl
  | _ => cases hsettled

/-- The answer to the packet that the initiator waits on, or has waited on, starts an exchange. -/
theorem Opening.answered (h : Opening worlds) (commutes : X25519Commutes provider)
    (correct : MlKemCorrect provider)
    (keys : SharedKeys provider privateKey (Function.update worlds .responder
      ((worlds .responder).advance state pending mutations)))
    {start : Phase} {operations : List Operation}
    (hphased : Phased provider start operations (worlds .initiator)) {packets : List FirstPacket}
    (hhandshaken : Handshaken provider packets (worlds .initiator)) {packet : FirstPacket}
    (hoffer : packet ∈ (worlds .initiator).offers) {transcript : FixedBytes 32}
    {accept : SessionAccept} {ratchet : RatchetState} {highWater : Option Nat}
    (haccepted : Accepted provider (worlds .responder) packet transcript accept ratchet)
    (hstate : state.phase = .established ratchet (some transcript) (some accept) highWater none)
    (hqueues : Queues (worlds .responder).durable.pending [] pending) :
    Session provider privateKey (Function.update worlds .responder
      ((worlds .responder).advance state pending mutations)) [] [] := by
  obtain ⟨waiting, hwaiting, hoffered⟩ := List.mem_filterMap.mp hoffer
  cases hphase : waiting.state.phase with
  | initiatorAwaiting _ transcript' context hybrid offerRatchet =>
    rw [hphase] at hoffered
    cases hoffered
    have hcreated := hhandshaken.created hwaiting hphase
    have hlater := (worlds .responder).later_advance state pending mutations
    have hstart := hcreated.starts commutes correct keys (haccepted.later hlater)
    obtain ⟨key, _, hsecrets⟩ := hcreated.offered
    obtain ⟨_, _, _, _, hderive⟩ := hsecrets.derived
    have hinitiator := hphased.offered hwaiting (by rw [hphase]; rfl)
    have hsame : Function.update worlds .responder
        ((worlds .responder).advance state pending mutations) .initiator = worlds .initiator :=
      Function.update_of_ne (by decide) _ _
    have hnext : Function.update worlds .responder
        ((worlds .responder).advance state pending mutations) .responder =
          (worlds .responder).advance state pending mutations := Function.update_self _ _ _
    have hunpended {party : Party} {kind : PendingKind} : ¬(Function.update worlds .responder
        ((worlds .responder).advance state pending mutations) party).Pended kind := by
      intro hpended
      rcases hpended.of_update hqueues with hold | ⟨_, hmade⟩
      · exact h.unpended hold
      · exact List.not_mem_nil hmade
    refine .running hderive ⟨_, _, _, hstart, .refl⟩ {
      engaged := fun party => ?_
      state := fun {party other} hratchet => ?_
      publics := fun hpublic => ?_
      carried := fun hpended => absurd hpended hunpended
      held := fun hpended => absurd hpended hunpended }
    · cases party with
      | initiator =>
        rw [hsame]
        rcases hinitiator with heq | hsettled
        · rw [heq, hphase]
          rfl
        · exact Phase.engaged_of_settled hsettled
      | responder =>
        rw [hnext, World.advance_durable, hstate]
        rfl
    · cases party with
      | initiator =>
        rw [hsame] at hratchet
        rcases hinitiator with heq | hsettled
        · rw [heq, hphase] at hratchet
          cases hratchet
          exact ⟨rfl, List.mem_cons_self⟩
        · have hopens := (h .initiator _ (History.newest_mem _)).2
          rw [Phase.ratchet_of_opens hsettled hopens] at hratchet
          cases hratchet
      | responder =>
        rw [hnext, World.advance_durable, hstate] at hratchet
        cases hratchet
        exact ⟨rfl, List.mem_cons_of_mem _ List.mem_cons_self⟩
    · rcases List.mem_cons.mp hpublic with rfl | hpublic
      · refine ⟨.initiator, offerRatchet.localPrivate.custodyToken, ?_⟩
        rw [hsame]
        exact ⟨World.referenced_of_ratchet hwaiting (by rw [hphase]; rfl), hcreated.publicOf⟩
      · cases List.mem_singleton.mp hpublic
        refine ⟨.responder, ratchet.localPrivate.custodyToken, ?_⟩
        rw [hnext]
        exact ⟨World.referenced_of_ratchet List.mem_cons_self (congrArg Phase.ratchet hstate),
          haccepted.publicOf.later hlater⟩
  | _ =>
    rw [hphase] at hoffered
    cases hoffered

theorem Mirrors.advance (h : Mirrors provider worlds exchange) {exchange' : Exchange}
    (hothers : ∀ other, other ≠ party → exchange'.state other = exchange.state other)
    (hengaged : state.phase.engaged = true)
    (hstate : ∀ ratchet, state.phase.ratchet = some ratchet →
      exchange'.state party = ratchet.rename party.token ∧
        ratchet.localPublic ∈ exchange'.publics)
    (hpublics : ∀ publicKey ∈ exchange'.publics, publicKey ∈ exchange.publics ∨
      ∃ ratchet, state.phase.ratchet = some ratchet ∧
        (worlds party).PublicOf provider ratchet.localPrivate.custodyToken publicKey)
    (hkept : exchange.publics ⊆ exchange'.publics) (hsent : exchange.sent ⊆ exchange'.sent)
    (haccepted : exchange.accepted ⊆ exchange'.accepted)
    (hqueues : Queues (worlds party).durable.pending made pending)
    (hpackets : ∀ packet, .packet packet ∈ made → ∃ plaintext,
      ⟨party, packet, plaintext⟩ ∈ exchange'.sent)
    (hplaintexts : ∀ plaintext, .plaintext plaintext ∈ made → ∃ packet,
      ⟨party, packet, plaintext⟩ ∈ exchange'.accepted) :
    Mirrors provider
      (Function.update worlds party ((worlds party).advance state pending mutations))
      exchange' := by
  have hlater := later_update ((worlds party).later_advance state pending mutations)
  refine ⟨fun other => ?_, fun {other ratchet} hratchet => ?_, fun {publicKey} hpublic => ?_,
    fun {other packet} hpended => ?_, fun {other plaintext} hpended => ?_⟩
  · by_cases hother : other = party
    · subst hother
      rw [Function.update_self]
      exact hengaged
    · rw [Function.update_of_ne hother]
      exact h.engaged other
  · by_cases hother : other = party
    · subst hother
      rw [Function.update_self] at hratchet
      exact hstate ratchet hratchet
    · rw [Function.update_of_ne hother] at hratchet
      obtain ⟨hsame, hpublic⟩ := h.state hratchet
      exact ⟨(hothers other hother).trans hsame, hkept hpublic⟩
  · rcases hpublics publicKey hpublic with hold | ⟨ratchet, hratchet, hof⟩
    · obtain ⟨other, token, hreferenced, hof⟩ := h.publics hold
      exact ⟨other, token, hreferenced.later (hlater other), hof.later (hlater other)⟩
    · refine ⟨party, ratchet.localPrivate.custodyToken, ?_, hof.later (hlater party)⟩
      rw [Function.update_self]
      exact World.referenced_of_ratchet List.mem_cons_self hratchet
  · rcases hpended.of_update hqueues with hold | ⟨rfl, hmade⟩
    · obtain ⟨plaintext, hrecord⟩ := h.carried hold
      exact ⟨plaintext, hsent hrecord⟩
    · exact hpackets packet hmade
  · rcases hpended.of_update hqueues with hold | ⟨rfl, hmade⟩
    · obtain ⟨packet, hrecord⟩ := h.held hold
      exact ⟨packet, haccepted hrecord⟩
    · exact hplaintexts plaintext hmade

theorem Mirrors.fresh (h : Mirrors provider worlds exchange)
    (keys : SharedKeys provider privateKey worlds) {staged : StagedSecretHandle .x25519Private}
    {publicKey : FixedBytes 32}
    (hread : (@Program.outcomes interface (FreshReads provider (worlds party))).may
      (custody.x25519Public (.staged staged)) (.ok publicKey)) :
    exchange.Fresh provider privateKey (staged.rename party.token) := by
  obtain ⟨hof, hnew⟩ := read_staged hread
  intro hpublic
  have hsame : publicKey = Exchange.publicOf provider privateKey
      (staged.rename party.token).custodyToken := keys.publicOf hof
  rw [← hsame] at hpublic
  obtain ⟨other, token, hreferenced, hof'⟩ := h.publics hpublic
  obtain ⟨rfl, rfl⟩ := keys.distinct hof hof'
  exact hnew hreferenced

/-- An exchange in which the party is about to send from a ratchet. -/
structure Readies (provider : Provider) (worlds : Party → World) (party : Party)
    (ratchet : RatchetState) (exchange exchange' : Exchange) : Prop where
  state : exchange'.state party = ratchet.rename party.token
  others (other : Party) : other ≠ party → exchange'.state other = exchange.state other
  sent : exchange'.sent = exchange.sent
  accepted : exchange'.accepted = exchange.accepted
  own : ratchet.localPublic ∈ exchange'.publics
  publics (publicKey : FixedBytes 32) : publicKey ∈ exchange'.publics →
    publicKey ∈ exchange.publics ∨
      (worlds party).PublicOf provider ratchet.localPrivate.custodyToken publicKey
  kept : exchange.publics ⊆ exchange'.publics

theorem Mirrors.readies (h : Mirrors provider worlds exchange)
    (keys : SharedKeys provider privateKey worlds) {session ratchet : RatchetState}
    {bootstrap : Option (StagedSecretHandle .x25519Private)}
    (hsession : (worlds party).durable.state.phase.ratchet = some session)
    (hready : session.Readied (Program.outcomes (FreshReads provider (worlds party))) provider
      bootstrap ratchet) :
    ∃ exchange', Relation.ReflTransGen (Exchange.Step provider privateKey) exchange exchange' ∧
      Readies provider worlds party ratchet exchange exchange' := by
  obtain ⟨hstate, hpublic⟩ := h.state hsession
  cases bootstrap with
  | none =>
    cases hready
    exact ⟨exchange, .refl, hstate, fun _ _ => rfl, rfl, rfl, hpublic, fun _ => .inl,
      List.Subset.refl _⟩
  | some staged =>
    obtain ⟨_, publicKey, hread, hprivate, hlocal, _⟩ :=
      RatchetState.mayOk_bootstrapResponder_sender _ hready
    have hstep := Outcomes.mayOk_value.mp
      (RatchetState.bootstrapResponder_rename (keys.reads party) hready)
    rw [← hstate] at hstep
    refine ⟨exchange.afterBootstrap party (ratchet.rename party.token),
      .single (.bootstrap party (KeyCustody.ofKeys_faithful _ _) (h.fresh keys hread) hstep), {
        state := Function.update_self _ _ _
        others := fun other hother => Function.update_of_ne hother _ _
        sent := rfl
        accepted := rfl
        own := List.mem_cons_self
        publics := fun other hother => ?_
        kept := List.subset_cons_self _ _ }⟩
    rcases List.mem_cons.mp hother with rfl | hold
    · right
      rw [hprivate]
      exact hlocal ▸ (read_staged hread).1
    · exact .inl hold

theorem packet_of_sent {packet packet' : Bytes} {effects : List Bytes}
    (h : PendingKind.packet packet' ∈ .packet packet :: effects.map .effect) :
    packet' = packet := by
  rw [← mem_packetsOf, packetsOf_sent] at h
  exact List.mem_singleton.mp h

theorem not_plaintext_of_sent {packet plaintext : Bytes} {effects : List Bytes} :
    PendingKind.plaintext plaintext ∉ .packet packet :: effects.map .effect := by
  simp

/-- A commit that sends is a step of the exchange, after one that readies the ratchet. -/
theorem Mirrors.sends (h : Mirrors provider worlds exchange)
    (keys : SharedKeys provider privateKey worlds) {session ratchet next : RatchetState}
    {bootstrap : Option (StagedSecretHandle .x25519Private)} {plaintext packet : Bytes}
    {effects : List Bytes} (hsession : (worlds party).durable.state.phase.ratchet = some session)
    (hready : session.Readied (Program.outcomes (FreshReads provider (worlds party))) provider
      bootstrap ratchet)
    (hsend : ratchet.send provider plaintext = .ok (next, packet))
    (hengaged : state.phase.engaged = true) (hstate : state.phase.ratchet = some next)
    (hqueues : Queues (worlds party).durable.pending (.packet packet :: effects.map .effect)
      pending) :
    ∃ exchange', Relation.ReflTransGen (Exchange.Step provider privateKey) exchange exchange' ∧
      Mirrors provider (Function.update worlds party
        ((worlds party).advance state pending mutations)) exchange' ∧
      exchange'.sent = ⟨party, packet, plaintext⟩ :: exchange.sent ∧
      exchange'.accepted = exchange.accepted := by
  obtain ⟨ready, hsteps, hready⟩ := h.readies keys hsession hready
  have hstep := @RatchetState.send_rename provider party.token _ _ _ _ hsend
  rw [← hready.state] at hstep
  obtain ⟨_, hnext⟩ := RatchetState.send_next hsend
  have hprivate : next.localPrivate = ratchet.localPrivate := by rw [hnext]
  have hlocal : next.localPublic = ratchet.localPublic := by rw [hnext]
  refine ⟨ready.afterSend party (next.rename party.token) packet plaintext,
    hsteps.tail (.send party hstep), h.advance ?_ hengaged ?_ ?_ hready.kept ?_ ?_ hqueues ?_ ?_,
    ?_, hready.accepted⟩
  · intro other hother
    exact (Function.update_of_ne hother _ _).trans (hready.others other hother)
  · intro other hother
    cases hstate.symm.trans hother
    exact ⟨Function.update_self _ _ _, hlocal ▸ hready.own⟩
  · intro publicKey hpublic
    refine (hready.publics publicKey hpublic).imp_right fun hof => ⟨next, hstate, ?_⟩
    rwa [hprivate]
  · rw [← hready.sent]
    exact List.subset_cons_self _ _
  · rw [← hready.accepted]
    exact List.Subset.refl _
  · intro other hother
    rw [packet_of_sent hother]
    exact ⟨plaintext, List.mem_cons_self⟩
  · intro other hother
    exact absurd hother not_plaintext_of_sent
  · rw [← hready.sent]
    rfl

/-- A commit that receives is a step of the exchange. -/
theorem Mirrors.receives (h : Mirrors provider worlds exchange)
    (keys : SharedKeys provider privateKey worlds) {session next : RatchetState}
    {fresh : Option (StagedSecretHandle .x25519Private)} {packet plaintext : Bytes}
    (hsession : (worlds party).durable.state.phase.ratchet = some session)
    (hreceive : (@Program.outcomes interface (FreshReads provider (worlds party))).mayOk
      (session.receive provider custody packet fresh) (next, plaintext))
    (hdelivered : ∃ sender, (worlds sender).Carried packet)
    (hengaged : state.phase.engaged = true) (hstate : state.phase.ratchet = some next)
    (hqueues : Queues (worlds party).durable.pending [.plaintext plaintext] pending) :
    ∃ exchange', Relation.ReflTransGen (Exchange.Step provider privateKey) exchange exchange' ∧
      Mirrors provider (Function.update worlds party
        ((worlds party).advance state pending mutations)) exchange' ∧
      exchange'.sent = exchange.sent ∧
      exchange'.accepted = ⟨party, packet, plaintext⟩ :: exchange.accepted := by
  obtain ⟨hsame, hpublic⟩ := h.state hsession
  obtain ⟨sender, hcarried⟩ := hdelivered
  obtain ⟨original, hsent⟩ := h.carried hcarried
  obtain ⟨used, hused, hstep⟩ := RatchetState.receive_rename (keys.reads party) hreceive
  have hstep := Outcomes.mayOk_value.mp hstep
  rw [← hsame] at hstep
  refine ⟨exchange.afterReceive party (next.rename party.token) packet plaintext,
    .single (.receive party (KeyCustody.ofKeys_faithful _ _) ?_ ⟨_, hsent, rfl⟩ hstep),
    h.advance ?_ hengaged ?_ ?_ (List.subset_cons_self _ _) (List.Subset.refl _)
      (List.subset_cons_self _ _) hqueues ?_ ?_, rfl, rfl⟩
  · intro handle hhandle
    obtain ⟨staged, hstaged, rfl⟩ := Option.map_eq_some_iff.mp hhandle
    obtain ⟨publicKey, hread⟩ := hused staged hstaged
    exact h.fresh keys hread
  · exact fun other hother => Function.update_of_ne hother _ _
  · intro other hother
    cases hstate.symm.trans hother
    exact ⟨Function.update_self _ _ _, List.mem_cons_self⟩
  · intro publicKey hmem
    rcases List.mem_cons.mp hmem with rfl | hold
    · rcases RatchetState.mayOk_receive_sender _ hreceive with
        hkept | ⟨staged, publicKey, _, hread, hprivate, hlocal, _⟩
      · exact .inl (hkept.localPublic ▸ hpublic)
      · refine .inr ⟨next, hstate, ?_⟩
        rw [hprivate]
        exact hlocal ▸ (read_staged hread).1
    · exact .inl hold
  · intro other hother
    cases List.mem_singleton.mp hother
  · intro other hother
    cases List.mem_singleton.mp hother
    exact ⟨packet, List.mem_cons_self⟩

theorem Operation.sent_nil : operation.sent party [] = none := by
  cases h : operation.payload <;> simp [Operation.sent, packetsOf, h]

theorem Operation.received_nil : operation.received party [] = none := by
  cases h : operation.record <;> simp [Operation.received, plaintextsOf, h]

theorem plaintextsOf_sent (packet : Bytes) (effects : List Bytes) :
    plaintextsOf (.packet packet :: effects.map .effect) = [] := by
  induction effects with
  | nil => rfl
  | cons effect effects ih => exact ih

theorem Operation.sent_of_sends {packet plaintext : Bytes} (effects : List Bytes)
    (h : operation.payload = some plaintext) :
    operation.sent party (.packet packet :: effects.map .effect) =
      some ⟨party, packet, plaintext⟩ := by
  rw [Operation.sent, h, packetsOf_sent]
  rfl

theorem Operation.received_of_sends (packet : Bytes) (effects : List Bytes) :
    operation.received party (.packet packet :: effects.map .effect) = none := by
  rw [Operation.received, plaintextsOf_sent]
  cases operation.record <;> rfl

theorem PhaseMove.silent_of_opens {phase phase' : Phase}
    (h : PhaseMove provider operation phase phase') (hopens : phase.opens party = true) :
    operation.payload = none ∧ ∀ packet fresh, operation ≠ .receiveRecord packet fresh := by
  cases h with
  | continues => cases party <;> cases hopens
  | _ => exact ⟨rfl, by simp⟩

theorem Opening.committed (h : Opening worlds) (commutes : X25519Commutes provider)
    (correct : MlKemCorrect provider)
    (keys : SharedKeys provider privateKey (Function.update worlds party
      ((worlds party).advance state pending mutations)))
    {start : Phase} {operations : List Operation}
    (hphased : Phased provider start operations (worlds .initiator)) {packets : List FirstPacket}
    (hhandshaken : Handshaken provider packets (worlds .initiator))
    (hdelivered : operation.Delivered worlds party)
    (hhandshake : HandshakeMove provider (worlds party) operation
      (worlds party).durable.state.phase state.phase)
    (hmove : PhaseMove provider operation (worlds party).durable.state.phase state.phase)
    (hqueues : Queues (worlds party).durable.pending [] pending) :
    Session provider privateKey (Function.update worlds party
      ((worlds party).advance state pending mutations)) [] [] := by
  have hopens := (h party _ (History.newest_mem _)).2
  change (worlds party).durable.state.phase.opens party = true at hopens
  generalize hbefore : (worlds party).durable.state.phase = before at hhandshake hmove hopens
  generalize hafter : state.phase = after at hhandshake hmove
  cases hmove with
  | admits =>
    cases party with
    | initiator => cases hopens
    | responder => exact .opening (h.advance hqueues (by rw [hafter]; rfl))
  | accepts =>
    cases party with
    | initiator => cases hopens
    | responder =>
      cases hhandshake with
      | accepts takes accepted =>
        cases takes
        exact h.answered commutes correct keys hphased hhandshaken hdelivered accepted hafter
          hqueues
      | goesOn before => cases before
  | creates =>
    cases party with
    | initiator => exact .opening (h.advance hqueues (by rw [hafter]; rfl))
    | responder => cases hopens
  | verifies =>
    cases party with
    | initiator =>
      -- The responder has stored no answer yet.
      obtain ⟨snapshot, hsnapshot, transcript, hanswer⟩ := hdelivered
      have hready := (h .responder snapshot hsnapshot).2
      generalize snapshot.state.phase = phase at hanswer hready
      cases phase <;> first | cases hanswer | cases hready
    | responder => cases hopens
  | continues => cases party <;> cases hopens
  | deletes =>
    refine .opening (h.advance hqueues ?_)
    rw [hafter]
    cases party <;> rfl

theorem Mirrors.quiet (h : Mirrors provider worlds exchange) (hengaged : state.phase.engaged = true)
    (hstate : state.phase.ratchet = (worlds party).durable.state.phase.ratchet ∨
      state.phase.ratchet = none)
    (hqueues : Queues (worlds party).durable.pending [] pending) :
    Mirrors provider (Function.update worlds party
      ((worlds party).advance state pending mutations)) exchange := by
  refine h.advance (fun _ _ => rfl) hengaged (fun ratchet hratchet => ?_) (fun _ => .inl)
    (List.Subset.refl _) (List.Subset.refl _) (List.Subset.refl _) hqueues
    (fun _ hmade => absurd hmade List.not_mem_nil) fun _ hmade => absurd hmade List.not_mem_nil
  rcases hstate with hsame | hnone
  · exact h.state (hsame ▸ hratchet)
  · cases hnone.symm.trans hratchet

theorem Mirrors.committed (h : Mirrors provider worlds exchange)
    (keys : SharedKeys provider privateKey worlds)
    (hdelivered : operation.Delivered worlds party)
    (hmove : PhaseMove provider operation (worlds party).durable.state.phase state.phase)
    (hturn : Turn (Program.outcomes (FreshReads provider (worlds party))) provider operation
      (worlds party).durable.state.phase.ratchet made state.phase.ratchet)
    (hqueues : Queues (worlds party).durable.pending made pending) :
    ∃ exchange', Relation.ReflTransGen (Exchange.Step provider privateKey) exchange exchange' ∧
      Mirrors provider (Function.update worlds party
        ((worlds party).advance state pending mutations)) exchange' ∧
      exchange'.sent = (operation.sent party made).toList ++ exchange.sent ∧
      exchange'.accepted = (operation.received party made).toList ++ exchange.accepted := by
  obtain ⟨hengaged, hlive⟩ := hmove.keepsEngaged (h.engaged party)
  generalize hbefore : (worlds party).durable.state.phase.ratchet = before at hturn hlive
  generalize hafter : state.phase.ratchet = after at hturn
  cases hturn with
  | offers => exact absurd rfl hlive
  | answers => exact absurd rfl hlive
  | keeps =>
    rw [Operation.sent_nil, Operation.received_nil]
    exact ⟨exchange, .refl, h.quiet hengaged (.inl (hafter.trans hbefore.symm)) hqueues, rfl, rfl⟩
  | sends carries ready sent =>
    rw [Operation.sent_of_sends _ carries, Operation.received_of_sends]
    exact h.sends keys hbefore ready sent hengaged hafter hqueues
  | receives delivered opened =>
    subst delivered
    exact h.receives keys hbefore opened hdelivered hengaged hafter hqueues
  | stops =>
    rw [Operation.sent_nil, Operation.received_nil]
    exact ⟨exchange, .refl, h.quiet hengaged (.inr hafter) hqueues, rfl, rfl⟩

/-- Every commit keeps to the exchange. -/
theorem Session.committed {sent : List SentRecord} {accepted : List AcceptedRecord}
    (h : Session provider privateKey worlds sent accepted) (commutes : X25519Commutes provider)
    (correct : MlKemCorrect provider)
    (keys : SharedKeys provider privateKey (Function.update worlds party
      ((worlds party).advance state pending mutations)))
    (hlater : ∀ other, (worlds other).Later (Function.update worlds party
      ((worlds party).advance state pending mutations) other))
    {start : Phase} {operations : List Operation}
    (hphased : Phased provider start operations (worlds .initiator)) {packets : List FirstPacket}
    (hhandshaken : Handshaken provider packets (worlds .initiator))
    (hdelivered : operation.Delivered worlds party)
    (hhandshake : HandshakeMove provider (worlds party) operation
      (worlds party).durable.state.phase state.phase)
    (hmove : PhaseMove provider operation (worlds party).durable.state.phase state.phase)
    (hturn : Turn (Program.outcomes (FreshReads provider (worlds party))) provider operation
      (worlds party).durable.state.phase.ratchet made state.phase.ratchet)
    (hqueues : Queues (worlds party).durable.pending made pending) :
    Session provider privateKey (Function.update worlds party
        ((worlds party).advance state pending mutations))
      ((operation.sent party made).toList ++ sent)
      ((operation.received party made).toList ++ accepted) := by
  cases h with
  | opening opening =>
    obtain rfl : made = [] := by
      have hopens := (opening party _ (History.newest_mem _)).2
      change (worlds party).durable.state.phase.opens party = true at hopens
      exact hturn.silent (hmove.silent_of_opens hopens).1 (hmove.silent_of_opens hopens).2
    rw [Operation.sent_nil, Operation.received_nil]
    exact opening.committed commutes correct keys hphased hhandshaken hdelivered hhandshake hmove
      hqueues
  | running derived reachable mirrors =>
    obtain ⟨exchange', hsteps, hmirrors, hsent, haccepted⟩ :=
      mirrors.committed (keys.earlier hlater) hdelivered hmove hturn hqueues
    rw [← hsent, ← haccepted]
    obtain ⟨_, _, w₀, hstart, hrun⟩ := reachable
    exact .running derived ⟨_, _, w₀, hstart, hrun.trans hsteps⟩ hmirrors

end

end LicoArc
