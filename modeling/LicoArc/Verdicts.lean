import LicoArc.Custody
import LicoArc.Honest
import LicoArc.Interaction.Sequence
import LicoArc.Moves
import LicoArc.TableProvider

/-!
# The verdict that a prekey is consumed

An acceptance turns every conflict of its commit into the terminal verdict that
the prekey is consumed. The verdict is true of a run unless a failed swap is
followed by a load that still shows the prekey, or an admission commits a prekey
that an acceptance has already looked for.
-/

namespace LicoArc

open Backend

/-! ## Errors that encodings and handshakes raise -/

namespace Encoding

theorem withinEncodedBytes_error {length : Nat} {e : Error}
    (h : withinEncodedBytes length = .error e) : e = representation .boundExceeded := by
  rw [withinEncodedBytes] at h
  split at h
  · exact (Except.error.inj h).symm
  · cases h

mutual

theorem encodedLength_error {depth : Nat} {e : Error} : ∀ v : CborValue,
    encodedLength depth v = .error e → e = representation .boundExceeded
  | .null, h | .bool _, h | .unsigned _, h | .bytes _, h | .text _, h => by
    rw [encodedLength] at h
    split at h
    · exact (Except.error.inj h).symm
    · exact withinEncodedBytes_error h
  | .array values, h => by
    rw [encodedLength] at h
    split at h
    · exact (Except.error.inj h).symm
    · rcases Except.bind_eq_error.mp h with h | ⟨_, _, h⟩
      · exact collectionEncodedLength_error values h
      · exact withinEncodedBytes_error h
  | .map entries, h => by
    rw [encodedLength] at h
    split at h
    · exact (Except.error.inj h).symm
    · rcases Except.bind_eq_error.mp h with h | ⟨_, _, h⟩
      · exact entriesEncodedLength_error entries h
      · exact withinEncodedBytes_error h

theorem collectionEncodedLength_error {depth start : Nat} {e : Error} : ∀ vs : List CborValue,
    collectionEncodedLength depth start vs = .error e → e = representation .boundExceeded
  | [], h => nomatch h
  | v :: vs, h => by
    rw [collectionEncodedLength, Except.bind_eq_error] at h
    rcases h with h | ⟨_, _, h⟩
    · exact encodedLength_error v h
    · exact collectionEncodedLength_error vs h

theorem entriesEncodedLength_error {depth start : Nat} {e : Error} :
    ∀ es : List (Nat × CborValue), entriesEncodedLength depth start es = .error e →
      e = representation .boundExceeded
  | [], h => nomatch h
  | (key, v) :: es, h => by
    simp only [entriesEncodedLength, Except.bind_eq_error, reject_eq_error] at h
    rcases h with ⟨_, h⟩ | ⟨_, _, h | ⟨_, _, h⟩⟩
    · exact h
    · exact encodedLength_error v h
    · exact entriesEncodedLength_error es h

end

theorem encode_error {v : CborValue} {e : Error} (h : encode v = .error e) :
    e = representation .boundExceeded := by
  rcases Except.bind_eq_error.mp h with h | ⟨_, _, h⟩
  · exact encodedLength_error v h
  · cases h

end Encoding

/-- Neither derivation of a session fails with a verdict of its own. -/
structure Provider.Plain (provider : Provider) (code : ErrorCode) : Prop where
  expand {key : FixedBytes 32} {info : Bytes} {length : Nat} {e : Error}
    (h : provider.hkdfExpandSha256 key info length = .error e) : e.code ≠ code
  hmac {key input : Bytes} {e : Error} (h : provider.hmacSha256 key input = .error e) :
    e.code ≠ code

section

variable {provider : Provider} {e : Error} (he : e.code = .prekeyConsumed)

include he

theorem handshakeRejected_ne : e ≠ handshakeRejected := by
  rintro rfl
  cases he

theorem boundExceeded_ne (stage : Stage) : e ≠ .terminal .boundExceeded stage := by
  rintro rfl
  cases he

omit he in
theorem reject_ne {condition : Prop} [Decidable condition] {error : Error} (h : e ≠ error) :
    reject condition error ≠ .error e := by
  intro hreject
  exact h (reject_eq_error.mp hreject).2

omit he in
theorem mapError_ne {α : Type} {x : Except Error α} {error : Error} (h : e ≠ error) :
    x.mapError (fun _ => error) ≠ .error e := by
  cases x with
  | ok a => exact nofun
  | error e' => exact fun heq => h (Except.error.inj heq).symm

theorem encode_ne (v : CborValue) : Encoding.encode v ≠ .error e :=
  fun h => boundExceeded_ne he _ (Encoding.encode_error h)

theorem validateIdentityShape_ne (identity : IdentityPublic) :
    validateIdentityShape identity ≠ .error e :=
  reject_ne (handshakeRejected_ne he)

theorem validatePrekeyShape_ne (bundle : PrekeyBundle) : validatePrekeyShape bundle ≠ .error e :=
  reject_ne (handshakeRejected_ne he)

theorem validateFirstPacketShape_ne (packet : FirstPacket) :
    validateFirstPacketShape packet ≠ .error e := by
  refine Except.bind_ne_error_of (validatePrekeyShape_ne he _) fun _ _ => ?_
  refine Except.bind_ne_error_of (reject_ne (handshakeRejected_ne he)) fun _ _ => ?_
  exact reject_ne (handshakeRejected_ne he)

theorem firstPacketDigest_ne (packet : FirstPacket) :
    firstPacketDigest provider packet ≠ .error e := by
  refine Except.bind_ne_error_of ?_ fun _ _ => nofun
  refine Except.bind_ne_error_of (validateFirstPacketShape_ne he packet) fun _ _ => ?_
  refine Except.bind_ne_error_of (encode_ne he _) fun _ _ => ?_
  exact Except.bind_ne_error_of (reject_ne (handshakeRejected_ne he)) fun _ _ => nofun

theorem prekeyTranscriptDigest_ne (packet : FirstPacket) :
    prekeyTranscriptDigest provider packet ≠ .error e :=
  Except.bind_ne_error_of (encode_ne he _) fun _ _ => nofun

theorem handshakeCore_ne (packet : FirstPacket) : handshakeCore provider packet ≠ .error e := by
  refine Except.bind_ne_error_of (prekeyTranscriptDigest_ne he packet) fun _ _ => ?_
  exact Except.bind_ne_error_of (encode_ne he _) fun _ _ => nofun

theorem sessionContext_ne (line : RuntimeLine) (transcript : FixedBytes 32) (packet : FirstPacket) :
    sessionContext provider line transcript packet ≠ .error e :=
  Except.bind_ne_error_of (encode_ne he _) fun _ _ => nofun

theorem acceptUnsigned_ne (accept : SessionAccept) : acceptUnsigned accept ≠ .error e := by
  refine Except.bind_ne_error_of (encode_ne he _) fun _ _ => ?_
  exact Except.bind_ne_error_of (reject_ne (boundExceeded_ne he _)) fun _ _ => nofun

theorem verifyDual_ne (identity : IdentityPublic) (input : Bytes) (ed : FixedBytes 64)
    (ml : Bytes) :
    verifyDual provider identity input ed ml ≠ .error e :=
  Except.bind_ne_error_of (mapError_ne (handshakeRejected_ne he)) fun _ _ =>
    mapError_ne (handshakeRejected_ne he)

theorem verifyBundle_ne (identity : IdentityPublic) (bundle : PrekeyBundle) :
    verifyBundle provider identity bundle ≠ .error e := by
  refine Except.bind_ne_error_of (validateIdentityShape_ne he _) fun _ _ => ?_
  refine Except.bind_ne_error_of (validatePrekeyShape_ne he _) fun _ _ => ?_
  refine Except.bind_ne_error_of (reject_ne (handshakeRejected_ne he)) fun _ _ => ?_
  refine Except.bind_ne_error_of ?_ fun _ _ => verifyDual_ne he _ _ _ _
  exact Except.bind_ne_error_of (encode_ne he _) fun _ _ => nofun

theorem verifyHandshakeAuthentication_ne (identity : IdentityPublic) (packet : FirstPacket) :
    verifyHandshakeAuthentication provider identity packet ≠ .error e := by
  refine Except.bind_ne_error_of (validateIdentityShape_ne he _) fun _ _ => ?_
  refine Except.bind_ne_error_of (validateFirstPacketShape_ne he _) fun _ _ => ?_
  refine Except.bind_ne_error_of (reject_ne (handshakeRejected_ne he)) fun _ _ => ?_
  exact Except.bind_ne_error_of (handshakeCore_ne he packet) fun _ _ => verifyDual_ne he _ _ _ _

theorem verifyClientConfirmation_ne (hybrid : HybridSecrets) (core : FixedBytes 32)
    (confirmation : Bytes) :
    hybrid.verifyClientConfirmation provider core confirmation ≠ .error e :=
  Except.bind_ne_error_of (mapError_ne (handshakeRejected_ne he)) fun _ _ =>
    reject_ne (handshakeRejected_ne he)

theorem responder_ne (hplain : provider.Plain .prekeyConsumed) (hybrid : HybridSecrets)
    (context : FixedBytes 32) (localPrivate : SecretHandle .x25519Private)
    (localPublic peerPublic : FixedBytes 32) :
    RatchetState.responder provider hybrid context localPrivate localPublic peerPublic ≠
      .error e := by
  refine Except.bind_ne_error_of ?_ fun _ _ => nofun
  refine Except.bind_ne_error_of (fun h => hplain.expand h he) fun _ _ => ?_
  exact Except.bind_ne_error_of (fun h => hplain.expand h he) fun _ _ => nofun

end

/-! ## What an acceptance decides -/

def Phase.Holds (sequence : Nat) : Phase → Prop
  | .responderReady _ active => sequence ∈ active
  | _ => False

instance (sequence : Nat) (phase : Phase) : Decidable (phase.Holds sequence) :=
  match phase with
  | .responderReady _ active => inferInstanceAs (Decidable (sequence ∈ active))
  | .initiatorNew | .initiatorAwaiting _ _ _ _ _ | .established _ _ _ _ _ | .deleted _ =>
    inferInstanceAs (Decidable False)

section

variable {m : Type → Type} [Monad m] (o : Outcomes m) {α β : Type} {e : Error}

theorem Outcomes.not_mayFail_bind {x : ExceptT Error m α} {f : α → ExceptT Error m β}
    (hx : ¬o.mayFail x e) (hf : ∀ a, o.mayOk x a → ¬o.mayFail (f a) e) :
    ¬o.mayFail (x >>= f) e := by
  rw [o.mayFail_bind]
  rintro (h | ⟨a, ha, h⟩)
  · exact hx h
  · exact hf a ha h

theorem Outcomes.not_mayFail_lift {x : Except Error α} (h : x ≠ .error e) :
    ¬o.mayFail (lift x : ExceptT Error m α) e := by
  rwa [o.mayFail_lift]

theorem Outcomes.not_mayFail_attempt {x : m (Except Error α)} {error : Error} (h : e ≠ error) :
    ¬o.mayFail (attempt x fun _ => error) e := by
  rw [o.mayFail_attempt]
  rintro ⟨_, _, heq⟩
  exact h heq

variable {self : Endpoint m} {initiatorIdentity : TrustedIdentity}
  {responderIdentity : IdentityPublic} {authority : FixedBytes 32} {packet : FirstPacket}
  {clock : Clock m} {current : Snapshot}

/-- A decision that a prekey is consumed is taken on a snapshot that has no such prekey. -/
theorem Endpoint.not_holds_of_consumed (hplain : self.provider.Plain .prekeyConsumed)
    (he : e.code = .prekeyConsumed) (hclock : ¬o.may clock.nowUnixSeconds (.error e))
    (h : o.mayFail (self.decideAcceptFirstPacket initiatorIdentity responderIdentity
      authority packet clock current) e) :
    ¬current.state.phase.Holds packet.prekey.pairSequence := by
  intro hholds
  revert h
  cases hphase : current.state.phase with
  | responderReady highWater active =>
    rw [hphase] at hholds
    obtain ⟨prekey, hprekey⟩ :=
      Option.isSome_iff_exists.mp (Std.ExtTreeMap.mem_iff_isSome_getElem?.mp hholds)
    have hrejected := handshakeRejected_ne he
    simp only [decideAcceptFirstPacket, hphase, hprekey]
    refine o.not_mayFail_bind (o.not_mayFail_lift ?_) fun _ _ => ?_
    · rw [ensureLive, hphase]
      rintro ⟨⟩
    refine o.not_mayFail_bind (o.not_mayFail_lift (validateIdentityShape_ne he _)) fun _ _ => ?_
    refine o.not_mayFail_bind (o.not_mayFail_lift (validateFirstPacketShape_ne he _)) fun _ _ => ?_
    refine o.not_mayFail_bind hclock fun _ _ => ?_
    refine o.not_mayFail_bind (o.not_mayFail_lift ?_) fun _ _ => ?_
    · exact Except.bind_ne_error_of (reject_ne hrejected) fun _ _ => (by rintro ⟨⟩)
    refine o.not_mayFail_bind (o.not_mayFail_lift (by rintro ⟨⟩)) fun _ _ => ?_
    refine o.not_mayFail_bind (o.not_mayFail_lift (reject_ne hrejected)) fun _ _ => ?_
    refine o.not_mayFail_bind (o.not_mayFail_lift (verifyBundle_ne he _ _)) fun _ _ => ?_
    refine o.not_mayFail_bind (o.not_mayFail_lift (handshakeCore_ne he _)) fun _ _ => ?_
    refine o.not_mayFail_bind (o.not_mayFail_lift ?_) fun _ _ => ?_
    · exact verifyHandshakeAuthentication_ne he _ _
    refine o.not_mayFail_bind (o.not_mayFail_attempt hrejected) fun _ _ => ?_
    refine o.not_mayFail_bind (o.not_mayFail_attempt hrejected) fun _ _ => ?_
    refine o.not_mayFail_bind (o.not_mayFail_lift (prekeyTranscriptDigest_ne he _)) fun _ _ => ?_
    refine o.not_mayFail_bind (o.not_mayFail_lift (mapError_ne hrejected)) fun _ _ => ?_
    refine o.not_mayFail_bind (o.not_mayFail_lift ?_) fun _ _ => ?_
    · exact verifyClientConfirmation_ne he _ _ _
    refine o.not_mayFail_bind (o.not_mayFail_lift (firstPacketDigest_ne he _)) fun _ _ => ?_
    refine o.not_mayFail_bind (o.not_mayFail_lift (sessionContext_ne he _ _ _)) fun _ _ => ?_
    refine o.not_mayFail_bind (o.not_mayFail_lift (responder_ne he hplain _ _ _ _ _)) fun _ _ => ?_
    refine o.not_mayFail_bind (o.not_mayFail_lift (acceptUnsigned_ne he _)) fun _ _ => ?_
    refine o.not_mayFail_bind (o.not_mayFail_lift fun h => hplain.hmac h he) fun _ _ => ?_
    exact o.mayFail_pure _ _
  | _ =>
    rw [hphase] at hholds
    cases hholds

end

/-! ## What an acceptance is told -/

abbrev Told := Program.Exchange interface World

def failsWith {α : Type} (code : ErrorCode) : Except Error α → Bool
  | .error e => e.code = code
  | .ok _ => false

theorem exists_of_failsWith {α : Type} {code : ErrorCode} {result : Except Error α}
    (h : failsWith code result = true) : ∃ e, result = .error e ∧ e.code = code := by
  cases result with
  | ok => cases h
  | error e => exact ⟨e, rfl, of_decide_eq_true h⟩

def Request.reports (code : ErrorCode) : (request : Request) → Reply request → Bool
  | .load, reply => failsWith code reply
  | .compareAndSwap _ _, reply => failsWith code reply
  | .now, reply => failsWith code reply
  | _, _ => false

/-- The results of a program whose replies never report the code. -/
def silently (code : ErrorCode) : Outcomes (Program interface) :=
  @Program.outcomes interface fun request reply => Request.reports code request reply = false

/-- A failed swap whose second load shows the prekey, and from which a conflict is inferred. -/
def Misread (sequence : Nat) (x y : Told) : Prop :=
  match x.request, x.reply, y.request, y.reply with
  | .compareAndSwap expected _, .error error, .load, .ok observed =>
    observed.state.phase.Holds sequence ∧
      (observed.revision.value = expected.value + 1 ∨
        observed.revision = expected ∧ error.code = .conflict)
  | _, _, _, _ => False

def Missed (sequence : Nat) (trace : List Told) : Prop :=
  ∃ x ∈ trace, x.request = Request.load ∧ ¬x.before.durable.state.phase.Holds sequence

section

variable {provider : Provider} {line : RuntimeLine} {initiatorIdentity : TrustedIdentity}
  {responderIdentity : IdentityPublic} {authority : FixedBytes 32} {packet : FirstPacket}
  {e : Error} {w w' : World} {trace : List Told}

/-- An acceptance whose commit ends with the verdict, although the prekey was there. -/
theorem missed_of_commit {current : Snapshot} {next : EndpointState}
    {mutations : List KeyMutation} {pending : List PendingItem} {sequence : Nat}
    (hcode : e.code = .conflict ∨ e.code = .prekeyConsumed)
    (hsilent : ∀ x ∈ trace, x.request.reports .prekeyConsumed x.reply = false)
    (hread : trace.IsChain fun x y => ¬Misread sequence x y)
    (hrun : Program.Executes World.Later (handles provider)
      (commitReplacingPending store current next mutations pending).run w trace
        (.done (.error e)) w') : Missed sequence trace := by
  rcases commit_exchanges hrun with ⟨_, stage, heq⟩ | ⟨w₁, w₂, reply, _, _, h⟩
  · cases heq
    rcases hcode with h | h <;> cases h
  rcases h with ⟨_, _, _, _, heq⟩ | ⟨error, w₃, observed, rfl, _, _, hload, rfl, heq⟩
  · obtain ⟨_, rfl⟩ := reject_eq_error.mp heq.symm
    rcases hcode with h | h <;> cases h
  · cases observed with
    | error e' =>
      cases heq
      rcases hcode with h | h <;> cases h
    | ok snapshot =>
      obtain rfl := hload snapshot rfl
      refine ⟨_, List.mem_cons_of_mem _ List.mem_cons_self, rfl, fun hholds => ?_⟩
      have hmisread := List.isChain_pair.mp hread
      have hreported :
          failsWith .prekeyConsumed (Except.error error : Except Error Revision) = false :=
        hsilent _ List.mem_cons_self
      have hquiet : error.code ≠ .prekeyConsumed := by simpa [failsWith] using hreported
      refine hmisread ⟨hholds, ?_⟩
      rw [verdict, reconcile] at heq
      split at heq
      · cases heq
      · split at heq
        · rename_i hsame
          cases heq
          exact .inr ⟨hsame.1, hcode.resolve_right hquiet⟩
        · split at heq
          · rename_i hnext
            exact .inl (congrArg Revision.value hnext)
          · cases heq
            rcases hcode with h | h <;> cases h

theorem Missed.append_left {sequence : Nat} {first second : List Told}
    (h : Missed sequence second) : Missed sequence (first ++ second) := by
  obtain ⟨x, hx, hrequest⟩ := h
  exact ⟨x, List.mem_append_right _ hx, hrequest⟩

theorem Missed.append_right {sequence : Nat} {first second : List Told}
    (h : Missed sequence first) : Missed sequence (first ++ second) := by
  obtain ⟨x, hx, hrequest⟩ := h
  exact ⟨x, List.mem_append_left _ hx, hrequest⟩

/-- An acceptance that ends with the verdict was shown a snapshot without the prekey. -/
theorem missed_of_consumed (hplain : provider.Plain .prekeyConsumed)
    (he : e.code = .prekeyConsumed)
    (hsilent : ∀ x ∈ trace, x.request.reports .prekeyConsumed x.reply = false)
    (hread : trace.IsChain fun x y => ¬Misread packet.prekey.pairSequence x y)
    (hrun : Program.Executes World.Later (handles provider)
      ((Operation.acceptFirstPacket initiatorIdentity responderIdentity authority packet).program
        (endpoint line provider)) w trace (.done (.error e)) w') :
    Missed packet.prekey.pairSequence trace := by
  rw [Operation.program_eq_perform, Endpoint.perform] at hrun
  obtain ⟨loaded, first, w₁, second, hfirst, hsecond, rfl⟩ :=
    Program.Executes.of_bind World.Later.refl hrun
  obtain ⟨w₂, w₃, _, hload, _, rfl⟩ := Program.Executes.of_perform hfirst
  have hshown := hsilent _ (List.mem_append_left _ List.mem_cons_self)
  cases loaded with
  | error e' =>
    obtain ⟨heq, _⟩ := Program.Executes.of_done hsecond
    cases heq
    have hcode : e.code ≠ .prekeyConsumed := by simpa [Request.reports, failsWith] using hshown
    exact absurd he hcode
  | ok current =>
    obtain rfl := hload.2 current rfl
    obtain ⟨decision, third, w₄, fourth, hthird, hfourth, rfl⟩ :=
      Program.Executes.of_bind World.Later.refl hsecond
    have hsilent' := fun x hx => hsilent x (List.mem_append_right _ hx)
    have hyields : (silently .prekeyConsumed).may _ decision :=
      hthird.yields fun x hx => hsilent' x (List.mem_append_left _ hx)
    cases decision with
    | error e' =>
      obtain ⟨heq, _⟩ := Program.Executes.of_done hfourth
      cases heq
      refine ⟨_, List.mem_append_left _ List.mem_cons_self, rfl, ?_⟩
      refine Endpoint.not_holds_of_consumed (silently .prekeyConsumed) hplain he ?_ hyields
      intro hnow
      have hreported : failsWith .prekeyConsumed (Except.error e : Except Error Nat) = false :=
        (Program.outcomes_perform _ _ _).mp hnow
      have hcode : e.code ≠ .prekeyConsumed := by simpa [failsWith] using hreported
      exact hcode he
    | ok decision =>
      have hread' := (List.isChain_append.mp (List.isChain_append.mp hread).2.1).2.1
      refine Missed.append_left (Missed.append_left ?_)
      obtain ⟨_, _, _, _, _, ⟨_, rfl⟩ | ⟨_, rfl⟩⟩ :=
        (Endpoint.mayOk_decideAcceptFirstPacket (silently .prekeyConsumed)).mp hyields
      · obtain ⟨_, fifth, w₅, sixth, _, hsixth, _⟩ :=
          Program.Executes.of_bind World.Later.refl hfourth
        cases (Program.Executes.of_done hsixth).1
      · obtain ⟨result, fifth, w₅, sixth, hfifth, hsixth, rfl⟩ :=
          Program.Executes.of_bind World.Later.refl hfourth
        refine Missed.append_right ?_
        cases result with
        | ok u => cases (Program.Executes.of_done hsixth).1
        | error e' =>
          have hadapted :
              e = if e'.code = .conflict then .terminal .prekeyConsumed .commit else e' := by
            cases hretry : e'.retryable <;>
              simp only [hretry] at hsixth <;>
              exact Except.error.inj (Program.Executes.of_done hsixth).1
          refine missed_of_commit (e := e') ?_ (fun x hx => hsilent' x ?_)
            (List.isChain_append.mp hread').1 hfifth
          · by_cases hconflict : e'.code = .conflict
            · exact .inl hconflict
            · rw [hadapted, if_neg hconflict] at he
              exact .inr he
          · exact List.mem_append_right _ (List.mem_append_left _ hx)

end

/-! ## Runs -/

namespace Call

def accepting : Call → Option Nat
  | operate _ (.acceptFirstPacket _ _ _ packet) => some packet.prekey.pairSequence
  | _ => none

def admitting : Call → Option Nat
  | operate _ (.admitPrekey _ _ pairSequence _ _ _ _) => some pairSequence
  | _ => none

end Call

section

variable {ι : Type} [DecidableEq ι] {provider : Provider}

/-- A step that spoils no verdict: neither the store nor the clock reports a consumed prekey to an
acceptance, a second load does not show the prekey where a conflict is inferred, and no admission
commits a prekey that an acceptance in progress has looked for. -/
def Sound (c : (system provider).Config ι) : (system provider).Event ι → Prop
  | .exchange i call x =>
    (∀ sequence ∈ call.accepting, x.request.reports .prekeyConsumed x.reply = false ∧
      ∀ origin trace rest, c.thread i = .busy call origin trace rest →
        ∀ y ∈ trace.getLast?, ¬Misread sequence y x) ∧
    (∀ sequence ∈ call.admitting, x.after.durable ≠ x.before.durable →
      ∀ j other origin trace rest, c.thread j = .busy other origin trace rest →
        sequence ∈ other.accepting → ¬Missed sequence trace)
  | _ => True

/-- What an acceptance knows after the exchanges that it has made. -/
structure Informed (sequence : Nat) (trace : List Told) (w : World) : Prop where
  silent : ∀ x ∈ trace, x.request.reports .prekeyConsumed x.reply = false
  read : trace.IsChain fun x y => ¬Misread sequence x y
  missed : Missed sequence trace → ¬w.durable.state.phase.Holds sequence

def Informing (c : (system provider).Config ι) : Prop :=
  ∀ i call origin trace rest, c.thread i = .busy call origin trace rest →
    ∀ sequence ∈ call.accepting, Informed sequence trace c.world

theorem PhaseMove.holds {operation : Operation} {phase phase' : Phase} {sequence : Nat}
    {line : RuntimeLine} (h : PhaseMove provider operation phase phase')
    (hholds : phase'.Holds sequence) :
    phase.Holds sequence ∨ (Call.operate line operation).admitting = some sequence := by
  cases h with
  | admits =>
    rcases Std.ExtTreeMap.mem_insert.mp hholds with heq | hmem
    · rw [Call.admitting, Nat.compare_eq_eq.mp heq]
      exact .inr rfl
    · exact .inl hmem
  | _ => cases hholds

variable {guard : (system provider).Config ι → (system provider).Event ι → Prop}
  {c₀ c c' : (system provider).Config ι} {log : List ((system provider).Event ι)}

theorem exchange_holds (hidle : c₀.allIdle) (h : (system provider).Run guard c₀ log c) {i : ι}
    {call : Call} {x : Told} {sequence : Nat}
    (hstep : (system provider).Step c (.exchange i call x) c')
    (hbefore : ¬c.world.durable.state.phase.Holds sequence)
    (hafter : c'.world.durable.state.phase.Holds sequence) :
    call.admitting = some sequence ∧ x.after.durable ≠ x.before.durable := by
  obtain ⟨hx, hx', hmoved⟩ := exchange_durable hidle h hstep
  have hne : x.after.durable ≠ x.before.durable := by
    intro heq
    rw [hx, hx'] at heq
    rw [heq] at hafter
    exact hbefore hafter
  rw [← hx] at hbefore
  rw [← hx'] at hafter
  rcases hmoved with hsame | ⟨line, operation, rfl, hcommitted⟩ | ⟨_, _, _, _, _, hsettled⟩
  · exact absurd hsame hne
  · exact ⟨(hcommitted.phaseMove.holds hafter).resolve_left hbefore, hne⟩
  · rw [hsettled.state] at hafter
    exact absurd hafter hbefore

theorem Call.not_admitting {call : Call} {sequence sequence' : Nat}
    (h : sequence ∈ call.accepting) : call.admitting ≠ some sequence' := by
  cases call with
  | operate line operation => cases operation <;> simp [accepting, admitting] at h ⊢
  | serve line service => cases h

theorem Informed.nil (sequence : Nat) (w : World) : Informed sequence [] w where
  silent _ hx := absurd hx List.not_mem_nil
  read := .nil
  missed h := by
    obtain ⟨x, hx, _⟩ := h
    cases hx

theorem Informed.later {sequence : Nat} {trace : List Told} {w w' : World}
    (h : Informed sequence trace w)
    (hlater : Missed sequence trace → ¬w.durable.state.phase.Holds sequence →
      ¬w'.durable.state.phase.Holds sequence) : Informed sequence trace w' where
  silent := h.silent
  read := h.read
  missed hmissed := hlater hmissed (h.missed hmissed)

theorem Informed.snoc {sequence : Nat} {trace : List Told} {x : Told}
    (h : Informed sequence trace x.before)
    (hsilent : x.request.reports .prekeyConsumed x.reply = false)
    (hread : ∀ y ∈ trace.getLast?, ¬Misread sequence y x)
    (hlater : ¬x.before.durable.state.phase.Holds sequence →
      ¬x.after.durable.state.phase.Holds sequence) : Informed sequence (trace ++ [x]) x.after where
  silent := by
    rw [List.forall_mem_append, List.forall_mem_singleton]
    exact ⟨h.silent, hsilent⟩
  read := by
    refine h.read.append (List.isChain_singleton _) fun y hy z hz => ?_
    cases hz
    exact hread y hy
  missed hmissed := by
    obtain ⟨y, hy, hrequest, hholds⟩ := hmissed
    rcases List.mem_append.mp hy with hy | hy
    · exact hlater (h.missed ⟨y, hy, hrequest, hholds⟩)
    · rw [List.mem_singleton.mp hy] at hholds
      exact hlater hholds

theorem run_informing (hidle : c₀.allIdle) (h : (system provider).Run Sound c₀ log c) :
    Informing c := by
  induction h with
  | start =>
    intro i call origin trace rest hbusy
    rw [hidle i] at hbusy
    cases hbusy
  | @step log c c' event run step guarded ih =>
    intro j call origin trace rest hbusy sequence hsequence
    by_cases hj : event.actor = some j
    · cases step with
      | start call' idle =>
        cases hj
        simp only [Function.update_self, System.Thread.busy.injEq] at hbusy
        obtain ⟨rfl, _, rfl, _⟩ := hbusy
        exact .nil sequence _
      | @exchange i call' origin' w trace' request next reply busy handled =>
        cases hj
        simp only [Function.update_self, System.Thread.busy.injEq] at hbusy
        obtain ⟨rfl, rfl, rfl, hrest⟩ := hbusy
        cases hrest
        obtain ⟨hsilent, hread⟩ := guarded.1 sequence hsequence
        refine Informed.snoc (ih _ _ _ _ _ busy sequence hsequence) hsilent
          (hread _ _ _ busy) fun hbefore hafter => ?_
        have hadmits := exchange_holds hidle run (.exchange busy handled) hbefore hafter
        exact Call.not_admitting hsequence hadmits.1
      | finish busy =>
        cases hj
        simp only [Function.update_self] at hbusy
        cases hbusy
      | surroundings moved => cases hj
    · rw [step.other hj] at hbusy
      refine (ih j call origin trace rest hbusy sequence hsequence).later fun hmissed hbefore => ?_
      cases step with
      | start call' idle => exact hbefore
      | exchange busy handled =>
        intro hafter
        obtain ⟨hadmits, hchanged⟩ := exchange_holds hidle run (.exchange busy handled)
          hbefore hafter
        exact guarded.2 sequence hadmits hchanged j call origin trace rest hbusy hsequence hmissed
      | finish busy => exact hbefore
      | surroundings moved =>
        have hdurable := surroundings_durable moved
        simp only at hdurable ⊢
        rwa [hdurable]

theorem Misread.isSwap {sequence : Nat} {x y : Told} (h : Misread sequence x y) :
    x.request.isSwap = true := by
  obtain ⟨before, request, reply, after⟩ := x
  cases request <;> first | rfl | exact h.elim

theorem sound_alone {call : Call} {origin w : World} {past : List Told} {x : Told}
    {rest : Program interface call.Result} {thread : Unit → (system provider).Thread}
    (hthread : thread () = .busy call origin past rest)
    (hsilent : x.request.reports .prekeyConsumed x.reply = false)
    (hswap : ∀ y ∈ past, y.request.isSwap = false) : Sound ⟨w, thread⟩ (.exchange () call x) := by
  constructor
  · refine fun sequence _ => ⟨hsilent, fun origin' trace rest' hbusy y hy hmisread => ?_⟩
    cases hthread.symm.trans hbusy
    have hnever := hswap y (List.mem_of_getLast? hy)
    rw [hmisread.isSwap] at hnever
    cases hnever
  · intro sequence hadmitting _ j other origin' trace rest' hbusy haccepting
    cases hthread.symm.trans hbusy
    exact absurd hadmitting (Call.not_admitting haccepting)

/-- In a run of sound steps the verdict is true: no prekey of its pair sequence is active when an
acceptance returns that the prekey is consumed. -/
theorem consumed_of_sound (hplain : provider.Plain .prekeyConsumed) (hidle : c₀.allIdle)
    (h : (system provider).Run Sound c₀ log c) {i : ι} {line : RuntimeLine}
    {initiatorIdentity : TrustedIdentity} {responderIdentity : IdentityPublic}
    {authority : FixedBytes 32} {packet : FirstPacket} {trace : List Told} {e : Error} {w : World}
    (hmem : .finish i (Call.operate line
      (.acceptFirstPacket initiatorIdentity responderIdentity authority packet)) trace
      (Except.error e) w ∈ log) (he : e.code = .prekeyConsumed) :
    ¬w.durable.state.phase.Holds packet.prekey.pairSequence := by
  induction h with
  | start => cases hmem
  | step run step guarded ih =>
    cases hmem with
    | tail _ hmem => exact ih hmem
    | head =>
      cases step with
      | finish busy =>
        have hinformed := run_informing hidle run _ _ _ _ _ busy _ rfl
        exact hinformed.missed (missed_of_consumed hplain he hinformed.silent hinformed.read
          (run_executes hidle run busy))

end

/-! ## A store that refuses a swap -/

namespace Refused

def provider : Provider :=
  { tableProvider [] [] with
    sha256 := fun _ => .zero 32
    hkdfSha256 := fun _ _ _ length => .ok (.zero length)
    hkdfExpandSha256 := fun _ _ length => .ok (.zero length)
    aeadOpen := fun _ _ _ _ => .ok dClientConfirm
    mlDsa65Public := fun _ => List.replicate mlDsa65PublicKeyBytes 0
    mlDsa65Sign := fun _ _ => List.replicate mlDsa65SignatureBytes 0
    mlKem768Public := fun _ => List.replicate mlKem768PublicKeyBytes 0
    mlKem768Decapsulate := fun _ _ => .ok (.zero 32) }

def line : RuntimeLine := ⟨.zero 32, .zero 32⟩

def identity : IdentityPublic :=
  ⟨.zero 32, .zero 32, .zero 32, .zero 32, List.replicate mlDsa65PublicKeyBytes 0⟩

def prekey : PrekeyBundle :=
  ⟨.zero 32, .zero 32, .zero 32, .zero 32, .zero 32, 1, .zero 32,
    List.replicate mlKem768PublicKeyBytes 0, 0, 10, .zero 64,
    List.replicate mlDsa65SignatureBytes 0⟩

def packet : FirstPacket :=
  ⟨.zero 32, .zero 32, .zero 32, .zero 32, .zero 32, .zero 32, prekey, .zero 32,
    List.replicate mlKem768CiphertextBytes 0, .zero 32, .zero 32, .zero 64,
    List.replicate mlDsa65SignatureBytes 0, .zero 36, .zero 16⟩

def admission : Operation := .admitPrekey identity ⟨⟨0⟩, ⟨1⟩⟩ 1 ⟨2⟩ ⟨3⟩ 0 10

def accept : Operation := .acceptFirstPacket ⟨identity, .zero 32⟩ identity (.zero 32) packet

def keys : List (Nat × KeyRecord) :=
  [(0, ⟨.adopted, .ed25519 (.zero 32)⟩), (1, ⟨.adopted, .mlDsa65 (.zero 32)⟩),
    (2, ⟨.staged, .x25519 (.zero 32)⟩), (3, ⟨.staged, .mlKem768 (.zero 64)⟩)]

def world : World := .stocked .responder keys (by decide)

/-- The store refuses every swap with a conflict and applies none. -/
def refuse (now : Nat) : (request : Request) → World → Reply request × World
  | .compareAndSwap _ _, w => (.error (.terminal .conflict .commit), w)
  | request, w => serve provider now request w

theorem handles_refuse (now : Nat) (request : Request) (w : World) :
    handles provider w request (refuse now request w).1 (refuse now request w).2 := by
  cases request with
  | compareAndSwap expected commit => exact ⟨.inl rfl, nofun⟩
  | _ => exact handles_serve provider now _ w

def admitted : World :=
  ((admission.program (endpoint line provider)).run (serve provider 0) world).2

theorem admission_run :
    ((Call.operate line admission).program provider).run (serve provider 0) world =
      (((admission.program (endpoint line provider)).run (serve provider 0) world).1, admitted) :=
  Prod.mk.eta.symm

def refusal : Except Error SessionAccept × World :=
  (accept.program (endpoint line provider)).run (refuse 0) admitted

theorem refused : (failsWith .prekeyConsumed refusal.1 &&
    decide (refusal.2.durable.state.phase.Holds 1)) = true := by
  decide +kernel

/-- A store that refuses the swap of an acceptance leaves the prekey active under the verdict that
it is consumed. -/
theorem active_prekey_consumed : world.Genesis ∧
    ∃ log c, (system provider).Run (fun _ _ => True) (atRest provider Unit world) log c ∧
      ∃ trace e w, .finish () (Call.operate line accept) trace (Except.error e) w ∈ log ∧
        e.code = .prekeyConsumed ∧ w.durable.state.phase.Holds packet.prekey.pairSequence := by
  have hrefused := refused
  cases hrefusal : refusal with
  | mk result w =>
    rw [hrefusal, Bool.and_eq_true, decide_eq_true_eq] at hrefused
    obtain ⟨e, rfl, hcode⟩ := exists_of_failsWith hrefused.1
    have hstart : (system provider).Run (fun _ _ => True) (atRest provider Unit world) []
      (atRest provider Unit world) := .start
    obtain ⟨_, _, hadmit⟩ := run_then (handles_serve provider 0) hstart () (.operate line admission)
      trivial (fun _ _ _ _ _ => trivial) (fun _ _ _ _ => trivial) admission_run
    obtain ⟨trace, log, haccept⟩ := run_then (handles_refuse 0) hadmit () (.operate line accept)
      trivial (fun _ _ _ _ _ => trivial) (fun _ _ _ _ => trivial) hrefusal
    exact ⟨World.stocked_genesis (.inr rfl) (by decide), _, _, haccept, trace, e, w,
      List.mem_cons_self, hcode, hrefused.2⟩

def otherAccept : Operation :=
  .acceptFirstPacket ⟨identity, .zero 32⟩ identity (.zero 32)
    { packet with prekey := { prekey with pairSequence := 2 } }

/-- The acceptance of a packet whose prekey was never admitted, where another prekey is active. -/
def unknown : Except Error SessionAccept × World :=
  (otherAccept.program (endpoint line provider)).run (serve provider 0) admitted

def swapsLast (call : Call) (w : World) : Bool :=
  let trace := (call.program provider).trace (serve provider 0) w
  (trace.all fun x => !x.request.reports .prekeyConsumed x.reply) &&
    trace.dropLast.all fun x => !x.request.isSwap

theorem unknown_consumed : failsWith .prekeyConsumed unknown.1 = true ∧
    decide (unknown.2.durable.state.phase.Holds 1) = true ∧
    swapsLast (.operate line admission) world = true ∧
    swapsLast (.operate line otherAccept) admitted = true := by
  decide +kernel

theorem sound_of_swapsLast {call : Call} {w : World} (h : swapsLast call w = true)
    {past : List Told} {x : Told} {future : List Told} (rest : Program interface call.Result)
    (htrace : (call.program provider).trace (serve provider 0) w = past ++ x :: future) :
    Sound ⟨x.before, Function.update (fun _ => .idle) () (.busy call w past rest)⟩
      (.exchange () call x : (system provider).Event Unit) := by
  rw [swapsLast, htrace, List.dropLast_append_cons, Bool.and_eq_true, List.all_eq_true,
    List.all_eq_true] at h
  refine sound_alone (Function.update_self _ _ _) ?_ fun y hy => ?_
  · simpa using h.1 x (by simp)
  · simpa using h.2 y (List.mem_append_left _ hy)

/-- A run of sound steps in which an acceptance returns that its prekey is consumed, while another
prekey is active. -/
theorem consumed_of_sound_unknown : ∃ log w e trace,
    (system provider).Run Sound (atRest provider Unit world) log (atRest provider Unit w) ∧
    .finish () (Call.operate line otherAccept) trace (Except.error e) w ∈ log ∧
    e.code = .prekeyConsumed ∧ w.durable.state.phase.Holds 1 ∧ ¬w.durable.state.phase.Holds 2 := by
  obtain ⟨hconsumed, hholds, hadmission, hother⟩ := unknown_consumed
  have hplain : provider.Plain .prekeyConsumed := ⟨nofun, nofun⟩
  have hstart : (system provider).Run Sound (atRest provider Unit world) []
    (atRest provider Unit world) := .start
  obtain ⟨_, _, hadmit⟩ := run_then (handles_serve provider 0) hstart () (.operate line admission)
    trivial (fun _ _ _ rest => sound_of_swapsLast hadmission rest) (fun _ _ _ _ => trivial)
    admission_run
  have hrun : ((Call.operate line otherAccept).program provider).run (serve provider 0) admitted =
    unknown := rfl
  generalize admitted = before at hother hadmit hrun
  generalize unknown = played at hconsumed hholds hrun
  obtain ⟨result, w⟩ := played
  obtain ⟨e, rfl, hcode⟩ := exists_of_failsWith hconsumed
  obtain ⟨trace, log, hcall⟩ := run_then (handles_serve provider 0) hadmit ()
    (.operate line otherAccept) trivial (fun _ _ _ rest => sound_of_swapsLast hother rest)
    (fun _ _ _ _ => trivial) hrun
  exact ⟨_, w, e, trace, hcall, List.mem_cons_self, hcode, of_decide_eq_true hholds,
    consumed_of_sound hplain (atRest_allIdle _) hcall List.mem_cons_self hcode⟩

end Refused

end LicoArc
