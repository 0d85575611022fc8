import LicoArc.Reopen

/-!
# The answer to the request of a first packet

An operation that succeeds returns what it decided on the snapshot of its first
load. A first packet that is created is made of the arguments, and one that is
stored is returned whatever the arguments are.
-/

namespace LicoArc

open Backend

/-! ## What a successful operation has read -/

section

variable {provider : Provider} {line : RuntimeLine} {w w' : World}
  {trace : List (Program.Exchange interface World)}

theorem executes_later {α : Type} {p rest : Program interface α}
    (hrun : Program.Executes World.Later (handles provider) p w trace rest w') :
    w.Later w' ∧ ∀ x ∈ trace, x.before.Later w' := by
  induction hrun with
  | wait later => exact ⟨later, fun _ hx => absurd hx List.not_mem_nil⟩
  | ask later handled _ ih =>
    obtain ⟨hlater, htrace⟩ := ih
    have hfirst := (later_of_handles handled).trans hlater
    exact ⟨later.trans hfirst, List.forall_mem_cons.mpr ⟨hfirst, htrace⟩⟩

theorem reads_of_quiet {request : Request} {reply : Reply request} (hquiet : request.quiet)
    (h : handles provider w request reply w') : Reads provider w.issued request reply := by
  cases request <;> first | exact h.2 | cases hquiet

theorem decided_of_executes {operation : Operation} {current : Snapshot}
    {result : Except Error (Decision operation.Value)}
    (hrun : Program.Executes World.Later (handles provider)
      (operation.decide (endpoint line provider) current).run w trace (.done result) w') :
    (decides provider w').may (operation.decide (endpoint line provider) current).run result := by
  have hquiet := Program.Executes.only (decide_quiet line provider operation current) hrun
  have hlater := (executes_later hrun).2
  refine hrun.yields fun x hx => ?_
  exact (reads_of_quiet (hquiet x hx) (hrun.handled x hx)).mono
    fun _ hkey => (hlater x hx).issued.subset hkey

def Decision.value {α : Type} : Decision α → α
  | answer value _ => value
  | commit plan _ => plan.value

theorem execute_value {α : Type} {current : Snapshot} {plan : Plan α}
    {abandon : Program interface Unit} {adapt : Error → Error} {value : α}
    (hrun : Program.Executes World.Later (handles provider)
      ((endpoint line provider).execute current plan abandon adapt) w trace
      (.done (.ok value)) w') :
    plan.value = value := by
  rw [Endpoint.execute] at hrun
  split at hrun
  · obtain ⟨_, _, _, _, _, hfailed, _⟩ := Program.Executes.of_bind World.Later.refl hrun
    cases (Program.Executes.of_done hfailed).1
  · obtain ⟨committed, _, _, _, _, hcommitted, _⟩ :=
      Program.Executes.of_bind World.Later.refl hrun
    cases committed with
    | ok => exact (Except.ok.inj (Program.Executes.of_done hcommitted).1).symm
    | error e =>
      simp only at hcommitted
      split at hcommitted
      · obtain ⟨_, _, _, _, _, hfailed, _⟩ := Program.Executes.of_bind World.Later.refl hcommitted
        cases (Program.Executes.of_done hfailed).1
      · cases (Program.Executes.of_done hcommitted).1

theorem Operation.decided_of_ok {operation : Operation} {value : operation.Value}
    (hrun : Program.Executes World.Later (handles provider)
      (operation.program (endpoint line provider)) w trace (.done (.ok value)) w') :
    ∃ w₁ rest decision, trace = ⟨w₁, Request.load, .ok w₁.durable, w₁⟩ :: rest ∧
      (decides provider w').mayOk (operation.decide (endpoint line provider) w₁.durable) decision ∧
      decision.value = value := by
  rw [Operation.program_eq_perform, Endpoint.perform] at hrun
  obtain ⟨loaded, first, w₁, second, hfirst, hsecond, rfl⟩ :=
    Program.Executes.of_bind World.Later.refl hrun
  obtain ⟨w₂, w₃, _, ⟨rfl, hloaded⟩, _, rfl⟩ := Program.Executes.of_perform hfirst
  cases loaded with
  | error e =>
    obtain ⟨_, _, _, _, _, hfailed, _⟩ := Program.Executes.of_bind World.Later.refl hsecond
    cases (Program.Executes.of_done hfailed).1
  | ok current =>
    obtain ⟨result, third, w₄, fourth, hthird, hfourth, rfl⟩ :=
      Program.Executes.of_bind World.Later.refl hsecond
    have hdecided := Program.Yields.mono
      (fun _ _ hreads => hreads.mono fun _ hx => (executes_later hfourth).1.issued.subset hx)
      (decided_of_executes hthird)
    cases result with
    | error e =>
      obtain ⟨_, _, _, _, _, hfailed, _⟩ := Program.Executes.of_bind World.Later.refl hfourth
      cases (Program.Executes.of_done hfailed).1
    | ok decision =>
      refine ⟨w₃, third ++ fourth, decision, ?_, ?_, ?_⟩
      · rw [hloaded current rfl]
        rfl
      · rw [← hloaded current rfl]
        exact hdecided
      · cases decision with
        | answer answer unused =>
          obtain ⟨_, _, _, _, _, hanswer, _⟩ := Program.Executes.of_bind World.Later.refl hfourth
          exact (Except.ok.inj (Program.Executes.of_done hanswer).1).symm
        | commit plan unused =>
          cases unused with
          | none => exact execute_value hfourth
          | some staged =>
            obtain ⟨_, _, _, _, _, hexecuted, _⟩ :=
              Program.Executes.of_bind World.Later.refl hfourth
            exact execute_value hexecuted

end

/-! ## The request of a first packet -/

/-- The arguments that a first packet is made of. -/
structure FirstPacketRequest where
  initiatorIdentity : IdentityPublic
  responderIdentity : TrustedIdentity
  initiatorUserAuthorityStateDigest : FixedBytes 32
  responderUserAuthorityStateDigest : FixedBytes 32
  prekey : PrekeyBundle

structure FirstPacketRequest.Answered (request : FirstPacketRequest) (packet : FirstPacket) :
    Prop where
  prekey : packet.prekey = request.prekey
  initiator : packet.initiatorIdentityStateDigest = request.initiatorIdentity.stateDigest
  responder : packet.responderIdentityStateDigest = request.responderIdentity.identity.stateDigest
  initiatorAuthority :
    packet.initiatorUserAuthorityStateDigest = request.initiatorUserAuthorityStateDigest
  responderAuthority :
    packet.responderUserAuthorityStateDigest = request.responderUserAuthorityStateDigest

def FirstPacketRequest.create (request : FirstPacketRequest) (signing : IdentitySigningHandles)
    (x25519Private : StagedSecretHandle .x25519Private)
    (mlKemEntropy : SecretHandle .mlKemEncapsulationEntropy) : Operation :=
  .createFirstPacket request.initiatorIdentity request.responderIdentity
    request.initiatorUserAuthorityStateDigest request.responderUserAuthorityStateDigest signing
    request.prekey x25519Private mlKemEntropy

/-- A phase that stores no first packet but the one of the request. -/
def FirstPacketRequest.Fits (request : FirstPacketRequest) (phase : Phase) : Prop :=
  ∀ packet transcript context hybrid ratchet,
    phase = .initiatorAwaiting packet transcript context hybrid ratchet → request.Answered packet

section

variable {ι : Type} [DecidableEq ι] {provider : Provider}
  {guard : (system provider).Config ι → (system provider).Event ι → Prop}
  {c₀ c : (system provider).Config ι} {log : List ((system provider).Event ι)}
  {request : FirstPacketRequest} {signing : IdentitySigningHandles}
  {x25519Private : StagedSecretHandle .x25519Private}
  {mlKemEntropy : SecretHandle .mlKemEncapsulationEntropy}

omit [DecidableEq ι] in
/-- A decision on a request gives its packet where the phase fits, and only there. -/
theorem FirstPacketRequest.answered_iff {line : RuntimeLine} {current : Snapshot} {w : World}
    {decision : Decision FirstPacket}
    (h : (decides provider w).mayOk ((request.create signing x25519Private mlKemEntropy).decide
      (endpoint line provider) current) decision) :
    request.Answered decision.value ↔ request.Fits current.state.phase := by
  obtain ⟨_, _, _, _, _, ⟨awaited, rfl⟩ | ⟨hphase, creation, rfl⟩⟩ :=
    (Endpoint.mayOk_decideCreateFirstPacket _).mp h
  · obtain ⟨_, _, _, _, _, hphase⟩ := awaited
    constructor
    · intro hanswered packet transcript context hybrid ratchet heq
      cases hphase.symm.trans heq
      exact hanswered
    · intro hfits
      exact hfits _ _ _ _ _ hphase
  · refine iff_of_true ?_ fun _ _ _ _ _ heq => nomatch hphase.symm.trans heq
    change request.Answered creation.packet
    rw [creation.packet_eq]
    exact ⟨rfl, rfl, rfl, rfl, rfl⟩

/-- In every run a first packet that is returned is the packet of its request exactly where the
snapshot that the call has loaded stores no other. -/
theorem create_answers_iff (hidle : c₀.allIdle) (h : (system provider).Run guard c₀ log c) {i : ι}
    {line : RuntimeLine} {trace : List (Program.Exchange interface World)} {packet : FirstPacket}
    {w : World} (hmem : .finish i (Call.operate line (request.create signing x25519Private
      mlKemEntropy)) trace (Except.ok packet) w ∈ log) :
    request.Answered packet ↔ ∀ x ∈ trace.head?, request.Fits x.before.durable.state.phase := by
  induction h with
  | start => cases hmem
  | step run step guarded ih =>
    cases hmem with
    | tail _ hmem => exact ih hmem
    | head =>
      cases step with
      | finish busy =>
        obtain ⟨w₁, rest, decision, rfl, hdecided, rfl⟩ :=
          @Operation.decided_of_ok _ _ _ _ _ (request.create signing x25519Private mlKemEntropy) _
            (run_executes hidle run busy)
        refine (FirstPacketRequest.answered_iff hdecided).trans ?_
        simp

end

/-! ## A second request with another authority -/

namespace Waiting

def request : FirstPacketRequest := ⟨identity, ⟨identity, .zero 32⟩, .zero 32, .zero 32, prekey⟩

def otherRequest : FirstPacketRequest :=
  { request with initiatorUserAuthorityStateDigest := .replicate 32 1 }

def createOther : Operation := otherRequest.create ⟨⟨0⟩, ⟨1⟩⟩ ⟨4⟩ ⟨3⟩

def first : Except Error FirstPacket × World :=
  (create.program (endpoint line provider)).run (serve provider 0) world

def second : Except Error FirstPacket × World :=
  (createOther.program (endpoint line provider)).run (serve provider 0) first.2

theorem first_ok : Except.check first.1 (fun _ => True) = true := by
  decide +kernel

theorem second_ok : Except.check second.1 (fun packet =>
    packet.initiatorUserAuthorityStateDigest ≠ .replicate 32 1) = true := by
  decide +kernel

theorem requests_run : ∃ packet packet' trace trace',
    first = (.ok packet, first.2) ∧ second = (.ok packet', second.2) ∧
    ¬otherRequest.Answered packet' ∧
    (system provider).Run (fun _ _ => True) (atRest provider Unit world)
      (callEvents () (Call.operate line createOther) trace' (Except.ok packet') second.2 ++
        callEvents () (Call.operate line create) trace (Except.ok packet) first.2)
      (atRest provider Unit second.2) := by
  obtain ⟨packet, hpacket, _⟩ := Except.exists_of_check first_ok
  obtain ⟨packet', hpacket', hother⟩ := Except.exists_of_check second_ok
  have hfirst : first = (.ok packet, first.2) := by rw [← hpacket]
  have hsecond : second = (.ok packet', second.2) := by rw [← hpacket']
  have hplays : ((Call.operate line create).program provider).Plays (serve provider 0) world
      (((Call.operate line create).program provider).trace (serve provider 0) world) (.ok packet)
      first.2 := ⟨hfirst, rfl⟩
  have hplays' : ((Call.operate line createOther).program provider).Plays (serve provider 0)
      first.2 (((Call.operate line createOther).program provider).trace (serve provider 0) first.2)
      (.ok packet') second.2 := ⟨hsecond, rfl⟩
  exact ⟨packet, packet', _, _, hfirst, hsecond, fun h => hother h.initiatorAuthority,
    run_calls () hplays hplays'⟩

/-- The first request gets its own packet. -/
theorem create_answers_iff_first :
    ∃ (packet : FirstPacket) (trace : List (Program.Exchange interface World)),
    first.1 = .ok packet ∧ (request.Answered packet ↔
      ∀ x ∈ trace.head?, request.Fits x.before.durable.state.phase) := by
  obtain ⟨packet, packet', trace, trace', hfirst, _, _, hrun⟩ := requests_run
  refine ⟨packet, trace, congrArg Prod.fst hfirst, ?_⟩
  exact @create_answers_iff Unit _ provider _ _ _ _ request ⟨⟨0⟩, ⟨1⟩⟩ ⟨2⟩ ⟨3⟩
    (atRest_allIdle world) hrun () line trace packet first.2
    (List.mem_append_right _ List.mem_cons_self)

/-- The second request gets the packet of the first. -/
theorem other_request_not_answered : world.Genesis ∧ ∃ log c trace packet w,
    (system provider).Run (fun _ _ => True) (atRest provider Unit world) log c ∧
    .finish () (Call.operate line (otherRequest.create ⟨⟨0⟩, ⟨1⟩⟩ ⟨4⟩ ⟨3⟩)) trace
      (Except.ok packet) w ∈ log ∧ ¬otherRequest.Answered packet := by
  obtain ⟨packet, packet', trace, trace', _, _, hother, hrun⟩ := requests_run
  exact ⟨world_genesis, _, _, trace', packet', second.2, hrun, List.mem_cons_self, hother⟩

end Waiting

end LicoArc
