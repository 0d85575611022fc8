import LicoArc.Verdicts

/-!
# Opening an endpoint over its store

A constructor accepts the first phase of its role only. A store can be opened
again up to the commit that begins the handshake, and from then on no more.
-/

namespace LicoArc

open Backend

inductive Role
  | initiator
  | responder
  deriving DecidableEq, Repr

namespace Role

def start : Role → EndpointState
  | initiator => .initiator
  | responder => .responder

def construct (role : Role) (line : RuntimeLine) (provider : Provider) :
    ExceptT Error (Program interface) (Endpoint (Program interface)) :=
  match role with
  | initiator => Endpoint.initiator line provider custody store
  | responder => Endpoint.responder line provider custody store

def fresh : Role → Phase → Prop
  | initiator, phase => phase = .initiatorNew
  | responder, phase => ∃ highWater active, phase = .responderReady highWater active

theorem start_fresh (role : Role) : role.fresh role.start.phase := by
  cases role with
  | initiator => rfl
  | responder => exact ⟨0, ∅, rfl⟩

end Role

/-- A phase with a handshake behind it or in progress. -/
def Phase.begun : Phase → Prop
  | .initiatorAwaiting _ _ _ _ _ | .established _ _ _ _ _ => True
  | _ => False

def Call.begins : Call → Bool
  | operate _ (.createFirstPacket _ _ _ _ _ _ _ _) => true
  | operate _ (.acceptFirstPacket _ _ _ _) => true
  | _ => false

section

variable {provider : Provider} {line : RuntimeLine} {now : Nat} {w : World}

theorem mayOk_construct (role : Role) :
    (∃ opened, (served provider now w).mayOk (role.construct line provider) opened) ↔
      role.fresh w.durable.state.phase := by
  have hload (current : Snapshot) : (served provider now w).may (store.load) (.ok current) ↔
      current = w.durable := by
    refine (@Program.outcomes_perform interface _ Request.load _).trans ?_
    exact ⟨fun h => Except.ok.inj h, fun h => congrArg Except.ok h⟩
  cases role with
  | initiator =>
    simp only [Role.construct, Endpoint.initiator, Outcomes.mayOk_bind, mayOk_mk, hload,
      Outcomes.mayOk_lift, ensureLive_eq_ok, Role.fresh]
    constructor
    · rintro ⟨_, _, rfl, _, _, h⟩
      cases hphase : w.durable.state.phase <;> simp [hphase] at h ⊢
    · intro hphase
      exact ⟨⟨line, provider, custody, store⟩, _, rfl, (), by simp [hphase], by simp [hphase]⟩
  | responder =>
    simp only [Role.construct, Endpoint.responder, Outcomes.mayOk_bind, mayOk_mk, hload,
      Outcomes.mayOk_lift, ensureLive_eq_ok, Role.fresh]
    constructor
    · rintro ⟨_, _, rfl, _, _, h⟩
      cases hphase : w.durable.state.phase <;> simp [hphase] at h ⊢
    · rintro ⟨highWater, active, hphase⟩
      exact ⟨⟨line, provider, custody, store⟩, _, rfl, (), by simp [hphase], by simp [hphase]⟩

end

/-- Where the store of a role stands, by whether a handshake was begun. -/
inductive Standing (role : Role) : Bool → Phase → Prop
  | fresh {phase : Phase} (fresh : role.fresh phase) : Standing role false phase
  | begun {phase : Phase} (begun : phase.begun) : Standing role true phase
  | deleted {begun : Bool} {highWater : Option Nat} : Standing role begun (.deleted highWater)

section

variable {ι : Type} [DecidableEq ι] {provider : Provider}
  {guard : (system provider).Config ι → (system provider).Event ι → Prop}
  {c₀ c c' : (system provider).Config ι} {log : List ((system provider).Event ι)}

theorem Role.fresh_not_begun {role : Role} {phase : Phase} (h : role.fresh phase) :
    ¬phase.begun := by
  cases role with
  | initiator =>
    cases h
    exact id
  | responder =>
    obtain ⟨_, _, rfl⟩ := h
    exact id

omit [DecidableEq ι] in
theorem Standing.move {role : Role} {begun : Bool} {line : RuntimeLine} {operation : Operation}
    {phase phase' : Phase} (h : Standing role begun phase)
    (hmove : PhaseMove provider operation phase phase') :
    Standing role (begun || Call.begins (.operate line operation)) phase' := by
  cases hmove with
  | admits =>
    cases h with
    | fresh hfresh =>
      cases role with
      | initiator => cases hfresh
      | responder => exact .fresh ⟨_, _, rfl⟩
    | begun hbegun => cases hbegun
  | accepts =>
    rw [Call.begins, Bool.or_true]
    exact .begun trivial
  | creates =>
    rw [Call.begins, Bool.or_true]
    exact .begun trivial
  | verifies =>
    cases h with
    | fresh hfresh => exact absurd trivial (Role.fresh_not_begun hfresh)
    | begun hbegun => exact .begun trivial
  | continues =>
    cases h with
    | fresh hfresh => exact absurd trivial (Role.fresh_not_begun hfresh)
    | begun hbegun => exact .begun trivial
  | deletes => exact .deleted

theorem run_standing (hidle : c₀.allIdle) {role : Role}
    (hstart : c₀.world.durable.state = role.start) (h : (system provider).Run guard c₀ log c) :
    Standing role (log.any (commitsOf Call.begins)) c.world.durable.state.phase := by
  induction h with
  | start => exact hstart ▸ .fresh role.start_fresh
  | @step log c c' event run step guarded ih =>
    rw [List.any_cons, Bool.or_comm]
    cases step with
    | start call idle => simpa [commitsOf] using ih
    | finish busy => simpa [commitsOf] using ih
    | surroundings moved =>
      rw [surroundings_durable moved]
      simpa [commitsOf] using ih
    | @exchange i call origin w trace request next reply busy handled =>
      obtain ⟨_, _, hsame | ⟨line, operation, rfl, hcommitted⟩ |
        ⟨line, service, revision, id, rfl, hsettled⟩⟩ :=
        exchange_durable hidle run (.exchange busy handled)
      · simp only at hsame ⊢
        simpa [commitsOf, hsame] using ih
      · rw [commitsOf_committed _ hcommitted]
        exact ih.move hcommitted.phaseMove
      · simpa [commitsOf, Call.begins, hsettled.state] using ih

/-- A live store can be opened again exactly when no commit of its run has begun a handshake. -/
theorem reopen_iff (hidle : c₀.allIdle) {role : Role}
    (hstart : c₀.world.durable.state = role.start) (h : (system provider).Run guard c₀ log c)
    (hlive : ∀ highWater, c.world.durable.state.phase ≠ .deleted highWater) (line : RuntimeLine)
    (now : Nat) :
    (∃ opened, (served provider now c.world).mayOk (role.construct line provider) opened) ↔
      ∀ event ∈ log, commitsOf Call.begins event = false := by
  have hstanding := run_standing hidle hstart h
  have hnone : (∀ event ∈ log, commitsOf Call.begins event = false) ↔
      log.any (commitsOf Call.begins) = false := by
    rw [List.any_eq_false]
    simp only [Bool.not_eq_true]
  rw [mayOk_construct, hnone]
  generalize log.any (commitsOf Call.begins) = begun at hstanding ⊢
  generalize c.world.durable.state.phase = phase at hstanding hlive ⊢
  cases hstanding with
  | fresh hfresh => exact iff_of_true hfresh rfl
  | begun hbegun => exact iff_of_false (fun hfresh => Role.fresh_not_begun hfresh hbegun) nofun
  | deleted => exact absurd rfl (hlive _)

omit [DecidableEq ι] in
theorem commitsOf_callEvents {kind : Call → Bool} {i : ι} {call : Call}
    {trace : List (Program.Exchange interface World)} {result : call.Result} {w : World}
    (h : kind call = false) :
    ∀ event ∈ (callEvents i call trace result w : List ((system provider).Event ι)),
      commitsOf kind event = false := by
  intro event hevent
  rw [callEvents, List.mem_cons, List.mem_append, List.mem_reverse, List.mem_map,
    List.mem_singleton] at hevent
  rcases hevent with rfl | ⟨x, _, rfl⟩ | rfl
  · rfl
  · simp [commitsOf, h]
  · rfl

end

theorem Refused.admitted_holds : decide (admitted.durable.state.phase.Holds 1) = true := by
  decide +kernel

/-- A responder that has admitted a prekey can be opened again. -/
theorem Refused.reopen_admitted : ∃ log w,
    (system provider).Run (fun _ _ => True) (atRest provider Unit world) log
      (atRest provider Unit w) ∧ w.durable.state.phase.Holds 1 ∧
    ∃ opened, (served provider 0 w).mayOk (Role.responder.construct line provider) opened := by
  have hrun := run_call (i := ()) (fun _ _ => trivial) .start (atRest_allIdle world ())
    ⟨admission_run, rfl⟩
  rw [List.append_nil] at hrun
  have hholds := admitted_holds
  generalize admitted = w at hrun hholds
  have hstart : world.durable.state = Role.responder.start := rfl
  have hlive (highWater : Option Nat) : w.durable.state.phase ≠ .deleted highWater := by
    intro hphase
    rw [hphase] at hholds
    cases hholds
  exact ⟨_, w, hrun, of_decide_eq_true hholds, (reopen_iff (atRest_allIdle world) hstart hrun hlive
    line 0).mpr (commitsOf_callEvents rfl)⟩

/-! ## An initiator that waits for its accept -/

namespace Waiting

def provider : Provider :=
  { tableProvider [] [] with
    sha256 := fun _ => .zero 32
    hkdfSha256 := fun _ _ _ length => .ok (.zero length)
    hkdfExpandSha256 := fun _ _ length => .ok (.zero length)
    aeadSeal := fun _ _ _ _ => .ok (List.replicate 52 0)
    mlDsa65Public := fun _ => List.replicate mlDsa65PublicKeyBytes 0
    mlDsa65Sign := fun _ _ => List.replicate mlDsa65SignatureBytes 0
    mlKem768Encapsulate := fun _ _ => .ok (List.replicate mlKem768CiphertextBytes 0, .zero 32) }

def line : RuntimeLine := ⟨.zero 32, .zero 32⟩

def identity : IdentityPublic :=
  ⟨.zero 32, .zero 32, .zero 32, .zero 32, List.replicate mlDsa65PublicKeyBytes 0⟩

def prekey : PrekeyBundle :=
  ⟨.zero 32, .zero 32, .zero 32, .zero 32, .zero 32, 1, .zero 32,
    List.replicate mlKem768PublicKeyBytes 0, 0, 10, .zero 64,
    List.replicate mlDsa65SignatureBytes 0⟩

def create : Operation :=
  .createFirstPacket identity ⟨identity, .zero 32⟩ (.zero 32) (.zero 32) ⟨⟨0⟩, ⟨1⟩⟩ prekey ⟨2⟩ ⟨3⟩

def keys : List (Nat × KeyRecord) :=
  [(0, ⟨.adopted, .ed25519 (.zero 32)⟩), (1, ⟨.adopted, .mlDsa65 (.zero 32)⟩),
    (2, ⟨.staged, .x25519 (.zero 32)⟩), (3, ⟨.adopted, .mlKemEntropy (.zero 32)⟩)]

def world : World where
  snapshots := .single (.initial .initiator)
  keys token := (keys.find? (·.1 = token)).map Prod.snd
  issued := keys.map fun entry => (entry.1, entry.2.material)
  unique := by decide
  known token record h := by
    obtain ⟨entry, hentry, rfl⟩ := Option.map_eq_some_iff.mp h
    have htoken := List.find?_some hentry
    simp only [decide_eq_true_eq] at htoken
    subst htoken
    exact List.mem_map_of_mem (List.mem_of_find?_eq_some hentry)

theorem world_genesis : world.Genesis where
  entries := .inl rfl
  unowned purpose token howned := by
    rintro ⟨record, hrecord, his⟩
    obtain ⟨entry, hentry, rfl⟩ := Option.map_eq_some_iff.mp hrecord
    have hkept : ∀ entry ∈ keys, entry.2.lifecycle = .adopted →
        entry.2.material.purpose.owned = false := by
      decide
    obtain ⟨hadopted, rfl⟩ := of_decide_eq_true his
    rw [hkept entry (List.mem_of_find?_eq_some hentry) hadopted] at howned
    cases howned

def isAwaiting : Phase → Bool
  | .initiatorAwaiting _ _ _ _ _ => true
  | _ => false

theorem created : isAwaiting (((Call.operate line create).program provider).run
    (serve provider 0) world).2.durable.state.phase = true := by
  decide +kernel

/-- An initiator that has sent its first packet cannot be opened again. -/
theorem awaiting_not_reopened : world.Genesis ∧
    ∃ log c, (system provider).Run (fun _ _ => True) (atRest provider Unit world) log c ∧
      (∀ highWater, c.world.durable.state.phase ≠ .deleted highWater) ∧
      ¬∃ opened, (served provider 0 c.world).mayOk (Role.initiator.construct line provider)
        opened := by
  have hrun := run_call (fun _ _ => trivial) .start (atRest_allIdle (ι := Unit) world ())
    (Program.Plays.self (serve provider 0) ((Call.operate line create).program provider) world)
  have hphase := created
  generalize (((Call.operate line create).program provider).run (serve provider 0) world).2 = w
    at hrun hphase
  refine ⟨world_genesis, _, _, hrun, ?_, ?_⟩
  · intro highWater heq
    have hdeleted : w.durable.state.phase = .deleted highWater := heq
    rw [hdeleted] at hphase
    cases hphase
  · rw [mayOk_construct]
    intro hfresh
    have hnew : w.durable.state.phase = .initiatorNew := hfresh
    rw [hnew] at hphase
    cases hphase

end Waiting

end LicoArc
