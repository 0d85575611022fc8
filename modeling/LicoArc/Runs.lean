import LicoArc.CallLaws

/-!
# Runs of calls over one backend

Every swap that a run applies is the commit of a decision on the very snapshot
that it replaces, and every result is backed by the history. Both follow from
the rule for one operation, so that an invariant of the world is left with four
cases: a commit, a settlement, a key given up and a key issued.
-/

namespace LicoArc

open Backend

/-! ## What a call owes -/

def Request.givesUp (x25519 : List (StagedSecretHandle .x25519Private))
    (mlKem : List (StagedSecretHandle .mlKem768Private)) : Request → Prop
  | abortX25519 staged => staged ∈ x25519
  | abortMlKem768 staged => staged ∈ mlKem
  | _ => False

namespace Operation

variable {provider : Provider} {line : RuntimeLine} {operation : Operation} {current : Snapshot}
  {w w' : World}

/-- A plan that the operation may make on a snapshot in a world. -/
structure Plans (provider : Provider) (line : RuntimeLine) (operation : Operation)
    (current : Snapshot) (w : World) (plan : Plan operation.Value) (pending : List PendingItem) :
    Prop where
  decided : ∃ unused, (decides provider w).mayOk
    (operation.decide (endpoint line provider) current) (.commit plan unused)
  items : plan.pending = .ok pending

theorem Plans.later {plan : Plan operation.Value} {pending : List PendingItem}
    (h : Plans provider line operation current w plan pending) (hlater : w.Later w') :
    Plans provider line operation current w' plan pending := by
  obtain ⟨unused, hdecided⟩ := h.decided
  exact ⟨⟨unused, mayOk_later hlater hdecided⟩, h.items⟩

/-- The requests that an operation may make: a swap is the commit of a plan, and nothing is
delivered or settled. -/
def Permitted (provider : Provider) (line : RuntimeLine) (operation : Operation) :
    Request → World → Prop
  | .compareAndSwap expected commit, w => ∃ current ∈ w.snapshots.entries,
    current.revision = expected ∧ ∃ plan pending,
      Plans provider line operation current w plan pending ∧
      Commit.bounded plan.next plan.mutations pending maxEndpointKeyMutations 16 = .ok commit
  | .settle _ _, _ | .carry _, _ | .apply _, _ | .release _, _ => False
  | _, _ => True

/-- A result that the history backs: an answer on a durable snapshot, or a plan that is durable. -/
def Backed (provider : Provider) (line : RuntimeLine) (operation : Operation) :
    Except Error operation.Value → World → Prop
  | .ok value, w => ∃ current ∈ w.snapshots.entries,
    (∃ unused, (decides provider w).mayOk (operation.decide (endpoint line provider) current)
      (.answer value unused)) ∨
    ∃ plan pending, Plans provider line operation current w plan pending ∧ plan.value = value ∧
      planned current plan.next pending ∈ w.snapshots.entries
  | .error _, _ => True

/-- A commit as the store sees it: a plan on the durable snapshot, swapped in with its keys. -/
structure Committed (provider : Provider) (line : RuntimeLine) (operation : Operation)
    (w w' : World) : Prop where
  planned : ∃ plan pending, Plans provider line operation w.durable w plan pending ∧
    Commit.bounded plan.next plan.mutations pending maxEndpointKeyMutations 16 =
      .ok ⟨plan.next, plan.mutations, pending⟩ ∧
    (∀ mutation ∈ plan.mutations, w.keys.permits mutation) ∧
    w' = w.advance plan.next pending plan.mutations

theorem committed_of_swapped {expected : Revision} {commit : Commit EndpointState}
    (hpermit : operation.Permitted provider line (.compareAndSwap expected commit) w)
    (hswapped : w.Swapped expected commit w') : operation.Committed provider line w w' := by
  obtain ⟨current, hcurrent, hrevision, plan, pending, hplans, hcommit⟩ := hpermit
  obtain ⟨_, _, _, _, rfl⟩ := Commit.bounded_eq_ok.mp hcommit
  have hdurable : current = w.durable := by
    apply History.eq_newest_of_rank hcurrent
    rw [hrevision, hswapped.current]
    rfl
  subst hdurable
  exact ⟨plan, pending, hplans, hcommit, hswapped.permitted, hswapped.advanced⟩

theorem unused_mem {decision : Decision operation.Value} {staged}
    (h : (decides provider w).mayOk (operation.decide (endpoint line provider) current) decision)
    (hunused : decision.unused = some staged) : staged ∈ operation.staged.1 := by
  cases operation with
  | admitPrekey =>
    obtain ⟨_, rfl⟩ := Endpoint.mayOk_decideAdmitPrekey _ h
    cases hunused
  | acceptFirstPacket =>
    obtain ⟨_, _, _, _, _, ⟨_, rfl⟩ | ⟨_, rfl⟩⟩ := (Endpoint.mayOk_decideAcceptFirstPacket _).mp h
    · cases hunused
    · cases hunused
  | createFirstPacket =>
    obtain ⟨_, _, _, _, _, ⟨_, rfl⟩ | ⟨_, _, rfl⟩⟩ :=
      (Endpoint.mayOk_decideCreateFirstPacket _).mp h
    · cases hunused
      exact List.mem_singleton_self _
    · cases hunused
  | verifySessionAccept =>
    obtain ⟨_, rfl⟩ := (Endpoint.mayOk_decideVerifySessionAccept _).mp h
    cases hunused
  | sendRecord =>
    obtain ⟨_, _, rfl⟩ := Endpoint.mayOk_decideSendRecord _ h
    cases hunused
  | receiveRecord _ fresh =>
    obtain ⟨_, receipt, rfl⟩ := Endpoint.mayOk_decideReceiveRecord _ h
    rcases receipt.rotates with ⟨_, hnone, _⟩ | ⟨_, hfresh, _⟩
    · cases hnone.symm.trans hunused
    · exact Option.mem_toList.mpr (hfresh.symm.trans hunused)
  | bootstrapCapabilities =>
    obtain ⟨_, rfl⟩ := Endpoint.mayOk_decideBootstrapCapabilities _ h
    cases hunused
  | applyCompleteCapabilityFlow =>
    obtain ⟨_, _, rfl⟩ := Endpoint.mayOk_decideApplyCompleteCapabilityFlow _ h
    cases hunused
  | deleteSession =>
    obtain ⟨_, rfl⟩ := Endpoint.mayOk_decideDeleteSession _ h
    cases hunused

theorem abandon_onlyAsks :
    (operation.abandon (endpoint line provider)).Only
      (Request.givesUp operation.staged.1 operation.staged.2) := by
  cases operation with
  | admitPrekey => exact ⟨List.mem_singleton_self _, fun _ =>
      ⟨List.mem_singleton_self _, fun _ => trivial⟩⟩
  | createFirstPacket => exact ⟨List.mem_singleton_self _, fun _ => trivial⟩
  | sendRecord _ bootstrapPrivate =>
    cases bootstrapPrivate with
    | none => trivial
    | some staged => exact ⟨List.mem_singleton_self _, fun _ => trivial⟩
  | receiveRecord _ freshPrivate =>
    cases freshPrivate with
    | none => trivial
    | some staged => exact ⟨List.mem_singleton_self _, fun _ => trivial⟩
  | _ => trivial

/-- The rule for an operation, for any discipline that lets it commit its plans. -/
theorem meets {rely : World → World → Prop} {permit : Request → World → Prop}
    {kept : World → Prop}
    (d : Discipline provider rely permit kept
      (Request.givesUp operation.staged.1 operation.staged.2))
    (hswap : ∀ w current plan pending commit, kept w → current ∈ w.snapshots.entries →
      Plans provider line operation current w plan pending →
      Commit.bounded plan.next plan.mutations pending maxEndpointKeyMutations 16 = .ok commit →
      permit (.compareAndSwap current.revision commit) w)
    (hkept : kept w) :
    Program.Meets rely (handles provider) permit (Backed provider line operation)
      (operation.program (endpoint line provider)) w := by
  rw [program_eq_perform]
  refine d.performs ?_ hkept
  exact {
    reads := decide_quiet line provider operation
    abandons := abandon_onlyAsks
    unused := fun h hunused => unused_mem h hunused
    swaps := fun hkept hcurrent hplan hpending hcommit =>
      hswap _ _ _ _ _ hkept hcurrent ⟨⟨_, hplan⟩, hpending⟩ hcommit
    answers := fun hcurrent hanswer => ⟨_, hcurrent, .inl ⟨_, hanswer⟩⟩
    commits := fun hcurrent hplan hpending hmem =>
      ⟨_, hcurrent, .inr ⟨_, _, ⟨⟨_, hplan⟩, hpending⟩, rfl, hmem⟩⟩
    fails := fun _ _ => trivial }

theorem discipline_later :
    Discipline provider World.Later (Permitted provider line operation) (fun _ => True)
      (Request.givesUp operation.staged.1 operation.staged.2) where
  refl := World.Later.refl
  trans _ _ _ := World.Later.trans
  later _ _ h := h
  load _ := trivial
  quiet request _ hquiet := by
    cases request with
    | compareAndSwap => cases hquiet
    | settle => cases hquiet
    | carry => cases hquiet
    | apply => cases hquiet
    | release => cases hquiet
    | _ => trivial
  stable _ _ _ _ := trivial
  give request _ hgives _ := by
    cases request with
    | abortX25519 => exact ⟨trivial, fun _ _ _ => trivial⟩
    | abortMlKem768 => exact ⟨trivial, fun _ _ _ => trivial⟩
    | _ => cases hgives

theorem meets_permitted (w : World) :
    Program.Meets World.Later (handles provider) (Permitted provider line operation)
      (Backed provider line operation) (operation.program (endpoint line provider)) w :=
  meets discipline_later (fun _ _ plan pending _ _ hcurrent hplans hcommit =>
    ⟨_, hcurrent, rfl, plan, pending, hplans, hcommit⟩) trivial

end Operation

/-! ## Services never swap -/

theorem findPending_onlyAsks {property : Request → Prop} (hload : property .load)
    (provider : Provider) (line : RuntimeLine) (id : PendingId) :
    OnlyAsks property ((endpoint line provider).findPending id) := by
  refine onlyAsks_bind ⟨hload, fun _ => trivial⟩ fun current => ?_
  refine onlyAsks_bind (onlyAsks_lift _) fun _ => ?_
  exact onlyAsks_bind (onlyAsks_lift _) fun _ => onlyAsks_pure _

theorem loadPending_onlyAsks {property : Request → Prop} (hload : property .load)
    (revision : Revision) (item : PendingItem) :
    OnlyAsks property (loadPending store revision item) :=
  onlyAsks_bind ⟨hload, fun _ => trivial⟩ fun _ =>
    onlyAsks_bind (onlyAsks_lift _) fun _ => onlyAsks_lift _

theorem serve_noSwap (provider : Provider) (line : RuntimeLine) (service : Service) :
    Program.Only (fun request : interface.Request => Request.isSwap request = false)
      (service.program (endpoint line provider)) := by
  have hfind := @findPending_onlyAsks (fun request => request.isSwap = false) rfl provider line
  have hload := @loadPending_onlyAsks (fun request => request.isSwap = false) rfl
  cases service with
  | pendingItems =>
    exact onlyAsks_bind ⟨rfl, fun _ => trivial⟩ fun _ =>
      onlyAsks_bind (onlyAsks_lift _) fun _ => onlyAsks_pure _
  | dispatchPending id =>
    refine onlyAsks_bind (hfind id) fun found => ?_
    refine onlyAsks_bind (onlyAsks_bind (hload _ _) fun _ => ?_) fun _ => onlyAsks_pure _
    cases found.2.kind with
    | packet packet =>
      exact onlyAsks_bind ⟨rfl, fun _ => trivial⟩ fun _ => ⟨rfl, fun _ => trivial⟩
    | effect effect =>
      exact onlyAsks_bind ⟨rfl, fun _ => trivial⟩ fun _ => ⟨rfl, fun _ => trivial⟩
    | plaintext plaintext => exact onlyAsks_bind (onlyAsks_throw _) fun _ => ⟨rfl, fun _ => trivial⟩
  | releasePendingPlaintext id =>
    refine onlyAsks_bind (hfind id) fun found => ?_
    refine onlyAsks_bind (onlyAsks_bind (hload _ _) fun _ => ?_) fun _ => onlyAsks_pure _
    cases found.2.kind with
    | plaintext plaintext =>
      exact onlyAsks_bind ⟨rfl, fun _ => trivial⟩ fun _ => ⟨rfl, fun _ => trivial⟩
    | packet packet => exact onlyAsks_bind (onlyAsks_throw _) fun _ => ⟨rfl, fun _ => trivial⟩
    | effect effect => exact onlyAsks_bind (onlyAsks_throw _) fun _ => ⟨rfl, fun _ => trivial⟩
  | retryRecord =>
    refine onlyAsks_bind ⟨rfl, fun _ => trivial⟩ fun current => ?_
    refine onlyAsks_bind (onlyAsks_lift _) fun _ => ?_
    split
    · exact onlyAsks_bind (onlyAsks_lift _) fun _ => onlyAsks_pure _
    · exact onlyAsks_throw _
  | restart generation =>
    exact onlyAsks_bind ⟨rfl, fun _ => trivial⟩ fun _ =>
      onlyAsks_bind (onlyAsks_lift _) fun _ =>
        onlyAsks_bind (onlyAsks_lift _) fun _ => onlyAsks_lift _

namespace Call

variable {provider : Provider}

def Permitted (provider : Provider) : Call → Request → World → Prop
  | operate line operation, request, w => operation.Permitted provider line request w
  | serve _ _, request, _ => request.isSwap = false

def Backed (provider : Provider) : (call : Call) → call.Result → World → Prop
  | operate line operation, result, w => operation.Backed provider line result w
  | serve _ _, _, _ => True

theorem meets_permitted (call : Call) (w : World) :
    Program.Meets World.Later (handles provider) (call.Permitted provider) (call.Backed provider)
      (call.program provider) w := by
  cases call with
  | operate line operation => exact operation.meets_permitted w
  | serve line service =>
    exact Program.Meets.of_only (serve_noSwap provider line service) (fun _ _ h => h)
      fun _ _ => trivial

def Committed (provider : Provider) : Call → World → World → Prop
  | operate line operation, w, w' => operation.Committed provider line w w'
  | serve _ _, _, _ => False

/-- What one permitted exchange of a call does to the world. -/
inductive Moves (provider : Provider) (call : Call) (w w' : World) : Prop
  | stays (same : w' = w)
  | commits (committed : call.Committed provider w w')
  | settles {revision : Revision} {id : PendingId} (settled : w.Settled revision id w')
  | gives {purpose : Purpose} {token : Nat}
      (owned : purpose = .x25519Private ∨ purpose = .mlKem768Private)
      (given : w' = w.abort purpose token)

theorem moves {call : Call} {w w' : World} {request : Request} {reply : Reply request}
    (hpermit : call.Permitted provider request w) (hhandled : handles provider w request reply w') :
    call.Moves provider w w' := by
  cases request with
  | compareAndSwap expected commit =>
    rcases hhandled.1 with hsame | hswapped
    · exact .stays hsame
    · cases call with
      | serve line service => cases hpermit
      | operate line operation => exact .commits (Operation.committed_of_swapped hpermit hswapped)
  | settle revision id =>
    rcases hhandled.1 with hsame | hsettled
    · exact .stays hsame
    · exact .settles hsettled
  | abortX25519 staged => exact .gives (.inl rfl) hhandled
  | abortMlKem768 staged => exact .gives (.inr rfl) hhandled
  | _ => exact .stays hhandled.1

end Call

/-! ## Runs -/

section

variable {provider : Provider} {ι : Type} [DecidableEq ι]
  {guard : (system provider).Config ι → (system provider).Event ι → Prop}
  {c₀ c c' : (system provider).Config ι} {log : List ((system provider).Event ι)}

def atRest (provider : Provider) (ι : Type) (w : World) : (system provider).Config ι :=
  ⟨w, fun _ => .idle⟩

omit [DecidableEq ι] in
theorem atRest_allIdle (w : World) : (atRest provider ι w).allIdle := fun _ => rfl

theorem later_of_step {event : (system provider).Event ι} (h : (system provider).Step c event c') :
    c.world.Later c'.world := by
  cases h with
  | start call idle => exact .refl _
  | exchange busy handled => exact later_of_handles handled
  | finish busy => exact .refl _
  | surroundings moved => exact moved.later

theorem later_of_run (h : (system provider).Run guard c₀ log c) : c₀.world.Later c.world := by
  induction h with
  | start => exact .refl _
  | step run step guarded ih => exact ih.trans (later_of_step step)

/-- In every run each request is permitted and each result is backed. -/
theorem run_meeting (hidle : c₀.allIdle) (h : (system provider).Run guard c₀ log c) :
    (system provider).Meeting (fun _ => World.Later) (Call.Permitted provider)
      (Call.Backed provider) c ∧
    ∀ event ∈ log, event.Fine (Call.Permitted provider) (Call.Backed provider) := by
  refine h.meeting (fun _ => World.Later.refl) (fun _ _ _ _ => World.Later.trans) hidle ?_ ?_
  · exact fun _ _ => Call.meets_permitted _ _
  · exact fun _ hstep _ _ _ _ _ _ _ _ => later_of_step hstep

theorem run_executes (hidle : c₀.allIdle) (h : (system provider).Run guard c₀ log c) {i : ι}
    {call : Call} {origin : World} {trace : List (Program.Exchange interface World)}
    {rest : Program interface call.Result} (hbusy : c.thread i = .busy call origin trace rest) :
    Program.Executes World.Later (handles provider) (call.program provider) origin trace rest
      c.world :=
  h.executes (fun _ => World.Later.refl) (fun _ _ _ _ => World.Later.trans) hidle
    (fun _ hstep _ _ _ _ _ _ _ _ => later_of_step hstep) hbusy

theorem exchange_moves (hidle : c₀.allIdle) (h : (system provider).Run guard c₀ log c) {i : ι}
    {call : Call} {x : Program.Exchange interface World}
    (hstep : (system provider).Step c (.exchange i call x) c') :
    x.before = c.world ∧ x.after = c'.world ∧ call.Moves provider c.world c'.world := by
  cases hstep with
  | @exchange _ _ origin _ trace request next reply busy handled =>
    have hmeets := (run_meeting hidle h).1 i call origin trace _ busy
    obtain ⟨hpermit, _⟩ := hmeets c.world (World.Later.refl _)
    exact ⟨rfl, rfl, Call.moves hpermit handled⟩

/-- An invariant of the world over every run: it is enough that it holds at the start and that
commits, settlements, keys given up and the surroundings keep it. -/
theorem run_invariant {I : World → Prop} (hidle : c₀.allIdle) (hinit : I c₀.world)
    (hcommit : ∀ line operation w w', I w →
      Operation.Committed provider line operation w w' → I w')
    (hsettle : ∀ revision id w w', I w → w.Settled revision id w' → I w')
    (habort : ∀ purpose token w, I w → I (w.abort purpose token))
    (hsurroundings : ∀ w w', I w → Surroundings w w' → I w')
    (h : (system provider).Run guard c₀ log c) : I c.world := by
  refine h.world_invariant hinit ?_ fun hI hmoved => hsurroundings _ _ hI hmoved
  intro log c c' i call x hrun hI hstep
  obtain ⟨_, _, hmoves⟩ := exchange_moves hidle hrun hstep
  cases hmoves with
  | stays hsame => rwa [hsame]
  | commits hcommitted =>
    cases call with
    | operate line operation => exact hcommit line operation _ _ hI hcommitted
    | serve line service => cases hcommitted
  | settles hsettled => exact hsettle _ _ _ _ hI hsettled
  | gives _ hgiven => exact hgiven ▸ habort _ _ _ hI

end

end LicoArc
