import LicoArc.RecordExchange
import LicoArc.StagedReads

/-!
# Ratchets over shared key material

Two stores issue their tokens on their own. Renaming the tokens of both apart
turns what a ratchet does against one store's custody into what it does against
the key material of both.
-/

namespace LicoArc

open Backend

/-- The tokens of the two parties, kept apart. -/
def Party.token : Party → Nat → Nat
  | .initiator, token => 2 * token
  | .responder, token => 2 * token + 1

theorem Party.token_injective {party party' : Party} {token token' : Nat}
    (h : party.token token = party'.token token') : party = party' ∧ token = token' := by
  cases party <;> cases party' <;> simp only [Party.token] at h <;>
    first | exact ⟨rfl, by omega⟩ | omega

def SecretHandle.rename {purpose : Purpose} (f : Nat → Nat) (handle : SecretHandle purpose) :
    SecretHandle purpose :=
  ⟨f handle.custodyToken⟩

def StagedSecretHandle.rename {purpose : Purpose} (f : Nat → Nat)
    (handle : StagedSecretHandle purpose) : StagedSecretHandle purpose :=
  ⟨f handle.custodyToken⟩

def RatchetState.rename (f : Nat → Nat) (state : RatchetState) : RatchetState :=
  { state with localPrivate := state.localPrivate.rename f }

structure KeyReads {m : Type → Type} [Monad m] (o : Outcomes m) (custody : KeyCustody m)
    (provider : Provider) (privateKey : Nat → FixedBytes 32) : Prop where
  x25519Public {handle : CustodyRef .x25519Private} {publicKey : FixedBytes 32} :
    o.may (custody.x25519Public handle) (.ok publicKey) →
    publicKey = provider.x25519Public (privateKey handle.custodyToken)
  x25519 {handle : CustodyRef .x25519Private} {publicKey shared : FixedBytes 32} :
    o.may (custody.x25519 handle publicKey) (.ok shared) →
    provider.x25519 (privateKey handle.custodyToken) publicKey = .ok shared

namespace RatchetState

variable {m : Type → Type} [Monad m] {o : Outcomes m} {custody : KeyCustody m}
  {provider : Provider} {privateKey : Nat → FixedBytes 32} {f : Nat → Nat}
  {state next : RatchetState}

theorem send_rename {plaintext packet : Bytes}
    (h : state.send provider plaintext = .ok (next, packet)) :
    (state.rename f).send provider plaintext = .ok (next.rename f, packet) := by
  obtain ⟨hplain, chain, step, header, body, hchain, hn, hstep, hheader, hbody, hsize, rfl, rfl⟩ :=
    send_eq_ok.mp h
  exact send_eq_ok.mpr ⟨hplain, chain, step, header, body, hchain, hn, hstep, hheader, hbody, hsize,
    rfl, rfl⟩

theorem bootstrapResponder_rename {staged : StagedSecretHandle .x25519Private}
    (reads : KeyReads o custody provider fun token => privateKey (f token))
    (h : o.mayOk (state.bootstrapResponder provider custody staged) next) :
    Outcomes.value.mayOk ((state.rename f).bootstrapResponder provider
      (.ofKeys provider privateKey) (staged.rename f)) (next.rename f) := by
  obtain ⟨hsending, hdirection, freshPublic, shared, root, chain, hpublic, hshared, hkeys, rfl⟩ :=
    (mayOk_bootstrapResponder o).mp h
  refine (mayOk_bootstrapResponder _).mpr ⟨hsending, hdirection, freshPublic, shared, root, chain,
    ?_, ?_, hkeys, rfl⟩
  · rw [reads.x25519Public hpublic]
    rfl
  · exact (reads.x25519 hshared).symm

theorem receiveDhTransition_rename {header : RatchetHeader}
    {fresh : StagedSecretHandle .x25519Private}
    (reads : KeyReads o custody provider fun token => privateKey (f token))
    (h : o.mayOk (state.receiveDhTransition provider custody header (some fresh)) next) :
    Outcomes.value.mayOk ((state.rename f).receiveDhTransition provider
      (.ofKeys provider privateKey) header (some (fresh.rename f))) (next.rename f) := by
  obtain ⟨hpn, hdistance, hroom, staged, freshPublic, skipped, peerShared, rootAfterReceive,
    receiving, freshShared, rootAfterSend, sending, hstaged, hpublic, hskipped, hpeer, hreceive,
    hfresh, hsend, rfl⟩ := (mayOk_receiveDhTransition o).mp h
  cases hstaged
  refine (mayOk_receiveDhTransition _).mpr ⟨hpn, hdistance, hroom, fresh.rename f, freshPublic,
    skipped, peerShared, rootAfterReceive, receiving, freshShared, rootAfterSend, sending, rfl, ?_,
    hskipped, ?_, hreceive, ?_, hsend, rfl⟩
  · rw [reads.x25519Public hpublic]
    rfl
  · exact (reads.x25519 hpeer).symm
  · exact (reads.x25519 hfresh).symm

theorem receiveInChain_rename {header : RatchetHeader} {headerBytes body plaintext : Bytes}
    (h : state.receiveInChain provider header headerBytes body = .ok (next, plaintext)) :
    (state.rename f).receiveInChain provider header headerBytes body =
      .ok (next.rename f, plaintext) := by
  by_cases hn : header.n < state.nr
  · have hrenamed : header.n < (state.rename f).nr := hn
    obtain ⟨retained, hkept, hopen, rfl⟩ := (receiveInChain_of_lt hn).mp h
    exact (receiveInChain_of_lt hrenamed).mpr ⟨retained, hkept, hopen, rfl⟩
  · have hrenamed : (state.rename f).nr ≤ header.n := Nat.not_lt.mp hn
    obtain ⟨hdistance, hroom, hn', first, last, skipped, step, hfirst, hretain, hstep, hopen,
      rfl⟩ :=
      (receiveInChain_of_le (Nat.not_lt.mp hn)).mp h
    exact (receiveInChain_of_le hrenamed).mpr ⟨hdistance, hroom, hn', first, last, skipped,
      step, hfirst, hretain, hstep, hopen, rfl⟩

/-- A receive uses its staged key only for a change of keys, for which it reads the public key. -/
theorem receive_rename {packet plaintext : Bytes}
    {fresh : Option (StagedSecretHandle .x25519Private)}
    (reads : KeyReads o custody provider fun token => privateKey (f token))
    (h : o.mayOk (state.receive provider custody packet fresh) (next, plaintext)) :
    ∃ used : Option (StagedSecretHandle .x25519Private),
      (∀ staged, used = some staged → ∃ publicKey,
        o.may (custody.x25519Public (.staged staged)) (.ok publicKey)) ∧
      Outcomes.value.mayOk ((state.rename f).receive provider (.ofKeys provider privateKey) packet
        (used.map (StagedSecretHandle.rename f))) (next.rename f, plaintext) := by
  obtain ⟨hsize, length, header, hlength, hheader, hreceive⟩ := (mayOk_receive o).mp h
  have hunused : ∀ staged, (none : Option (StagedSecretHandle .x25519Private)) = some staged →
      ∃ publicKey, o.may (custody.x25519Public (.staged staged)) (.ok publicKey) :=
    fun _ hsome => absurd hsome (Option.some_ne_none _).symm
  rcases hreceive with ⟨retained, hkept, hopen, rfl⟩ | ⟨hnone, tentative, htentative, hchain⟩
  · exact ⟨none, hunused, (mayOk_receive _).mpr ⟨hsize, length, header, hlength, hheader,
      .inl ⟨retained, hkept, hopen, rfl⟩⟩⟩
  · have hchain' := @receiveInChain_rename provider f _ _ _ _ _ _ hchain
    rcases htentative with ⟨hdh, rfl⟩ | ⟨hdh, htransition⟩
    · exact ⟨none, hunused, (mayOk_receive _).mpr ⟨hsize, length, header, hlength, hheader,
        .inr ⟨hnone, _, .inl ⟨hdh, rfl⟩, hchain'⟩⟩⟩
    · obtain ⟨staged, freshPublic, _, _, _, _, rfl, hpublic, _⟩ :=
        receiveDhTransition_next o htransition
      refine ⟨some staged, fun other hother => ?_, (mayOk_receive _).mpr ⟨hsize, length, header,
        hlength, hheader, .inr ⟨hnone, _, .inr ⟨hdh, receiveDhTransition_rename reads htransition⟩,
          hchain'⟩⟩⟩
      cases hother
      exact ⟨freshPublic, hpublic⟩

end RatchetState

/-! ## Key material of both parties -/

/-- Key material that agrees with what both parties were issued, with public keys that are all
different. -/
structure SharedKeys (provider : Provider) (privateKey : Nat → FixedBytes 32)
    (worlds : Party → World) : Prop where
  issued {party : Party} {token : Nat} {key : FixedBytes 32} :
    (token, .x25519 key) ∈ (worlds party).issued → privateKey (party.token token) = key
  distinct {party party' : Party} {token token' : Nat} {publicKey : FixedBytes 32} :
    (worlds party).PublicOf provider token publicKey →
    (worlds party').PublicOf provider token' publicKey → party = party' ∧ token = token'

/-- Whatever both parties were issued, there is such key material. -/
theorem exists_privateKey (worlds : Party → World) : ∃ privateKey : Nat → FixedBytes 32,
    ∀ {party : Party} {token : Nat} {key : FixedBytes 32},
      (token, .x25519 key) ∈ (worlds party).issued → privateKey (party.token token) = key := by
  classical
  refine ⟨fun renamed => if h : ∃ key, ∃ party token, renamed = Party.token party token ∧
    (token, .x25519 key) ∈ (worlds party).issued then h.choose else .zero 32, ?_⟩
  intro party token key hkey
  have hexists : ∃ key, ∃ party' token', party.token token = Party.token party' token' ∧
      (token', .x25519 key) ∈ (worlds party').issued := ⟨key, party, token, rfl, hkey⟩
  simp only [dif_pos hexists]
  obtain ⟨party', token', hrenamed, hchosen⟩ := hexists.choose_spec
  obtain ⟨rfl, rfl⟩ := Party.token_injective hrenamed
  have hsame := congrArg Prod.snd (List.inj_on_of_nodup_map (worlds party).unique hchosen hkey rfl)
  exact KeyMaterial.x25519.inj hsame

namespace SharedKeys

variable {provider : Provider} {privateKey : Nat → FixedBytes 32} {worlds worlds' : Party → World}

theorem earlier (h : SharedKeys provider privateKey worlds')
    (hlater : ∀ party, (worlds party).Later (worlds' party)) :
    SharedKeys provider privateKey worlds where
  issued hkey := h.issued ((hlater _).issued.subset hkey)
  distinct hpublic hpublic' :=
    h.distinct (World.PublicOf.later hpublic (hlater _)) (hpublic'.later (hlater _))

theorem publicOf (h : SharedKeys provider privateKey worlds) {party : Party} {token : Nat}
    {publicKey : FixedBytes 32} (hpublic : (worlds party).PublicOf provider token publicKey) :
    publicKey = Exchange.publicOf provider privateKey (party.token token) := by
  obtain ⟨key, hkey, rfl⟩ := hpublic
  rw [Exchange.publicOf, h.issued hkey]

theorem reads (h : SharedKeys provider privateKey worlds) (party : Party) :
    KeyReads (Program.outcomes (FreshReads provider (worlds party))) custody provider
      fun token => privateKey (party.token token) where
  x25519Public {handle publicKey} hread := by
    have hfresh := (@Program.outcomes_perform interface (FreshReads provider (worlds party))
      (.x25519Public handle) _).mp hread
    exact h.publicOf (hfresh.1 publicKey rfl)
  x25519 {handle publicKey shared} hread := by
    have hfresh := (@Program.outcomes_perform interface (FreshReads provider (worlds party))
      (.x25519 handle publicKey) _).mp hread
    obtain ⟨key, hkey, hshared⟩ := hfresh.1 shared rfl
    rw [h.issued hkey]
    exact hshared

end SharedKeys

end LicoArc
