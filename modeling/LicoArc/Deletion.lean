import LicoArc.Prekeys
import LicoArc.Reopen

/-!
# After a deletion

A deleted session is closed for good: nothing moves its snapshot any more, and
every entry point turns its caller away after one load. What such a call may
still do is to give up the staged handles that it was given.
-/

namespace LicoArc

open Backend

def deletedError : Error := .terminal .deleted .validation

/-! ## Programs that turn a caller away -/

section

variable {α β : Type} {gives : Request → Prop} {e : Error}

/-- The program makes requests of a kind only and fails with the error. -/
def FailsWith (gives : Request → Prop) (e : Error) : Program interface (Except Error α) → Prop
  | .done result => result = .error e
  | .ask request next => gives request ∧ ∀ reply, FailsWith gives e (next reply)

theorem failsWith_of_only {p : Program interface Unit} (h : p.Only gives) :
    FailsWith gives e (p >>= fun _ => pure (.error e) : Program interface (Except Error α)) := by
  induction p with
  | done => rfl
  | ask request next ih => exact ⟨h.1, fun reply => ih reply (h.2 reply)⟩

theorem FailsWith.bind {p : Program interface (Except Error β)}
    {f : β → ExceptT Error (Program interface) α} (h : FailsWith gives e p) :
    FailsWith gives e (ExceptT.mk p >>= f : ExceptT Error (Program interface) α).run := by
  induction p with
  | done result =>
    subst h
    rfl
  | ask request next ih => exact ⟨h.1, fun reply => ih reply (h.2 reply)⟩

theorem FailsWith.executes {rely : World → World → Prop} {provider : Provider}
    {p : Program interface (Except Error α)} {result : Except Error α} {w w' : World}
    {trace : List (Program.Exchange interface World)} (h : FailsWith gives e p)
    (hrun : Program.Executes rely (handles provider) p w trace (.done result) w') :
    result = .error e ∧ ∀ x ∈ trace, gives x.request := by
  generalize hrest : Program.done result = rest at hrun
  induction hrun with
  | wait =>
    subst hrest
    exact ⟨h, fun _ hx => absurd hx List.not_mem_nil⟩
  | ask _ _ _ ih =>
    obtain ⟨hresult, htrace⟩ := ih (h.2 _) hrest
    exact ⟨hresult, List.forall_mem_cons.mpr ⟨h.1, htrace⟩⟩

def refusal : Except Error Snapshot → Error
  | .ok _ => deletedError
  | .error e => e

/-- The program starts with a load, and fails where the load fails or shows a deleted session. -/
def TurnsAway (gives : Request → Prop) (p : Program interface (Except Error α)) : Prop :=
  ∃ next : Except Error Snapshot → Program interface (Except Error α),
    p = @Program.ask interface _ Request.load next ∧
    ∀ reply, (∀ current, reply = .ok current → ∃ highWater,
    current.state.phase = .deleted highWater) →
      FailsWith gives (refusal reply) (next reply)

theorem ensureLive_deleted {state : EndpointState} {highWater : Option Nat}
    (h : state.phase = .deleted highWater) : ensureLive state = .error deletedError := by
  rw [ensureLive, h]
  rfl

theorem turnsAway_load {f : Snapshot → Unit → ExceptT Error (Program interface) α} :
    TurnsAway gives (do
      let current ← ExceptT.mk store.load
      let live ← lift (ensureLive current.state)
      f current live : ExceptT Error (Program interface) α).run := by
  refine ⟨_, rfl, fun reply hdeleted => ?_⟩
  cases reply with
  | error e => rfl
  | ok current =>
    obtain ⟨highWater, hphase⟩ := hdeleted current rfl
    change FailsWith gives deletedError
      (lift (ensureLive current.state) >>= f current : ExceptT Error _ α).run
    rw [ensureLive_deleted hphase]
    rfl

theorem TurnsAway.bind {x : ExceptT Error (Program interface) β}
    {f : β → ExceptT Error (Program interface) α} (h : TurnsAway gives x.run) :
    TurnsAway gives (x >>= f).run := by
  obtain ⟨next, hx, hnext⟩ := h
  have hstart : (x >>= f).run = @Program.ask interface _ Request.load
      fun reply => (ExceptT.mk (next reply) >>= f : ExceptT Error _ α).run := by
    change (ExceptT.mk x.run >>= f : ExceptT Error _ α).run = _
    rw [hx]
    rfl
  exact ⟨_, hstart, fun reply hdeleted => (hnext reply hdeleted).bind⟩

end

/-! ## Every entry point -/

section

variable (provider : Provider) (line : RuntimeLine)

theorem decide_deleted (operation : Operation) {current : Snapshot} {highWater : Option Nat}
    (h : current.state.phase = .deleted highWater) :
    (operation.decide (endpoint line provider) current).run = .done (.error deletedError) := by
  cases operation
  all_goals
    simp only [Operation.decide, Endpoint.decideAdmitPrekey, Endpoint.decideAcceptFirstPacket,
      Endpoint.decideCreateFirstPacket, Endpoint.decideVerifySessionAccept,
      Endpoint.decideSendRecord, Endpoint.decideReceiveRecord,
      Endpoint.decideBootstrapCapabilities, Endpoint.decideApplyCompleteCapabilityFlow,
      Endpoint.decideDeleteSession, ensureLive_deleted h]
    rfl

theorem perform_turnsAway {α : Type} {gives : Request → Prop}
    {decide : Snapshot → ExceptT Error (Program interface) (Decision α)}
    {abandon : Program interface Unit} {adapt : Error → Error}
    (hdecide : ∀ current highWater, current.state.phase = .deleted highWater →
      (decide current).run = .done (.error deletedError))
    (habandon : abandon.Only gives) :
    TurnsAway gives ((endpoint line provider).perform decide abandon adapt) := by
  refine ⟨_, rfl, fun reply hdeleted => ?_⟩
  cases reply with
  | error e => exact failsWith_of_only habandon
  | ok current =>
    obtain ⟨highWater, hphase⟩ := hdeleted current rfl
    change FailsWith gives deletedError ((decide current).run >>= _)
    rw [hdecide current highWater hphase]
    exact failsWith_of_only habandon

theorem operation_turnsAway (operation : Operation) :
    TurnsAway (Request.givesUp operation.staged.1 operation.staged.2)
      (operation.program (endpoint line provider)) := by
  rw [Operation.program_eq_perform]
  exact perform_turnsAway provider line (fun _ _ => decide_deleted provider line operation)
    Operation.abandon_onlyAsks

theorem service_turnsAway (service : Service) :
    TurnsAway (fun _ => False) (service.program (endpoint line provider)) := by
  cases service with
  | pendingItems => exact turnsAway_load
  | dispatchPending id =>
    have hfind : TurnsAway (fun _ => False) ((endpoint line provider).findPending id).run :=
      turnsAway_load
    exact hfind.bind
  | releasePendingPlaintext id =>
    have hfind : TurnsAway (fun _ => False) ((endpoint line provider).findPending id).run :=
      turnsAway_load
    exact hfind.bind
  | retryRecord => exact turnsAway_load
  | restart generation => exact turnsAway_load

theorem construct_turnsAway (role : Role) :
    TurnsAway (fun _ => False) (role.construct line provider).run := by
  cases role with
  | initiator => exact turnsAway_load
  | responder => exact turnsAway_load

end

/-! ## What a refused call leaves -/

abbrev StagedHandles :=
  List (StagedSecretHandle .x25519Private) × List (StagedSecretHandle .mlKem768Private)

def World.GivesUp (staged : StagedHandles) (w w' : World) : Prop :=
  (∃ handle ∈ staged.1, w' = w.abort .x25519Private handle.custodyToken) ∨
    ∃ handle ∈ staged.2, w' = w.abort .mlKem768Private handle.custodyToken

/-- A call that was turned away: it failed after its load, and gave up its own staged handles at
most. -/
def TurnedAway {α : Type} (staged : StagedHandles)
    (trace : List (Program.Exchange interface World)) (result : Except Error α) : Prop :=
  ∃ w reply rest, trace = ⟨w, Request.load, reply, w⟩ :: rest ∧ result = .error (refusal reply) ∧
    ∀ x ∈ rest, x.before.GivesUp staged x.after

theorem World.GivesUp.durable {staged : StagedHandles} {w w' : World} (h : w.GivesUp staged w') :
    w'.durable = w.durable := by
  rcases h with ⟨_, _, rfl⟩ | ⟨_, _, rfl⟩ <;> rfl

theorem World.GivesUp.adopted {staged : StagedHandles} {w w' : World} (h : w.GivesUp staged w')
    (purpose : Purpose) (token : Nat) :
    w'.keys.adopted purpose token ↔ w.keys.adopted purpose token := by
  rcases h with ⟨_, _, rfl⟩ | ⟨_, _, rfl⟩ <;> exact Keys.adopted_abort

theorem Request.givesUp_handled {provider : Provider} {staged : StagedHandles} {request : Request}
    {reply : Reply request} {w w' : World} (h : Request.givesUp staged.1 staged.2 request)
    (handled : handles provider w request reply w') : w.GivesUp staged w' := by
  cases request with
  | abortX25519 handle => exact .inl ⟨handle, h, handled⟩
  | abortMlKem768 handle => exact .inr ⟨handle, h, handled⟩
  | _ => cases h

structure Closed (snapshot : Snapshot) : Prop where
  deleted : ∃ highWater, snapshot.state.phase = .deleted highWater
  settled : snapshot.pending = []

def KeepsClosed (w w' : World) : Prop := Closed w.durable → w'.durable = w.durable

theorem KeepsClosed.refl (w : World) : KeepsClosed w w := fun _ => rfl

theorem KeepsClosed.trans {w w' w'' : World} (h : KeepsClosed w w') (h' : KeepsClosed w' w'') :
    KeepsClosed w w'' := by
  intro hclosed
  have hsame := h hclosed
  rw [h' (hsame ▸ hclosed), hsame]

theorem TurnsAway.executes {provider : Provider} {α : Type} {gives : Request → Prop}
    {staged : StagedHandles} {p : Program interface (Except Error α)} {result : Except Error α}
    {w w' : World} {trace : List (Program.Exchange interface World)} (h : TurnsAway gives p)
    (hgives : ∀ request, gives request → Request.givesUp staged.1 staged.2 request)
    (hclosed : Closed w.durable)
    (hrun : Program.Executes KeepsClosed (handles provider) p w trace (.done result) w') :
    TurnedAway staged trace result := by
  obtain ⟨next, rfl, hnext⟩ := h
  generalize hrest : Program.done result = rest at hrun
  cases hrun with
  | wait => cases hrest
  | @ask _ _ _ w₁ w₂ _ reply trace _ later handled goesOn =>
    subst hrest
    obtain ⟨rfl, hloaded⟩ := handled
    have hfails := hnext reply fun current heq => by
      rw [hloaded current heq, later hclosed]
      exact hclosed.deleted
    obtain ⟨hresult, hrequests⟩ := hfails.executes goesOn
    refine ⟨w₂, reply, trace, rfl, hresult, fun x hx => ?_⟩
    exact Request.givesUp_handled (hgives _ (hrequests x hx)) (goesOn.handled x hx)

def Call.Refused : (call : Call) → List (Program.Exchange interface World) → call.Result → Prop
  | operate _ operation, trace, result => TurnedAway operation.staged trace result
  | serve _ _, trace, result => TurnedAway ([], []) trace result

theorem Call.refused (provider : Provider) (call : Call) {result : call.Result} {w w' : World}
    {trace : List (Program.Exchange interface World)} (hclosed : Closed w.durable)
    (hrun : Program.Executes KeepsClosed (handles provider) (call.program provider) w trace
      (.done result) w') : call.Refused trace result := by
  cases call with
  | operate line operation =>
    exact (operation_turnsAway provider line operation).executes (fun _ h => h) hclosed hrun
  | serve line service =>
    exact (service_turnsAway provider line service).executes (fun _ h => h.elim) hclosed hrun

theorem Role.refused (provider : Provider) (line : RuntimeLine) (role : Role)
    {result : Except Error (Endpoint (Program interface))} {w w' : World}
    {trace : List (Program.Exchange interface World)} (hclosed : Closed w.durable)
    (hrun : Program.Executes KeepsClosed (handles provider) (role.construct line provider).run
      w trace (.done result) w') : TurnedAway ([], []) trace result :=
  (construct_turnsAway provider line role).executes (fun _ h => h.elim) hclosed hrun

/-! ## Runs -/

section

variable {ι : Type} [DecidableEq ι] {provider : Provider}
  {guard : (system provider).Config ι → (system provider).Event ι → Prop}
  {c₀ c c' : (system provider).Config ι} {log log' : List ((system provider).Event ι)}

theorem step_keepsClosed (hidle : c₀.allIdle) (h : (system provider).Run guard c₀ log c)
    {event : (system provider).Event ι} (hstep : (system provider).Step c event c') :
    KeepsClosed c.world c'.world := by
  intro hclosed
  cases hstep with
  | start call idle => rfl
  | exchange busy handled =>
    obtain ⟨_, _, hsame | ⟨_, _, _, hcommitted⟩ | ⟨_, _, _, _, _, hsettled⟩⟩ :=
      exchange_durable hidle h (.exchange busy handled)
    · exact hsame
    · obtain ⟨highWater, hphase⟩ := hclosed.deleted
      exact absurd hphase (hcommitted.live highWater)
    · obtain ⟨item, hitem, _⟩ := hsettled.pending
      rw [hclosed.settled] at hitem
      cases hitem
  | finish busy => rfl
  | surroundings moved => exact surroundings_durable moved

theorem run_keepsClosed (hidle : c₀.allIdle) (h : (system provider).Run guard c₀ log c)
    (hlater : (system provider).Run guard c log' c') : KeepsClosed c.world c'.world := by
  induction hlater with
  | start => exact .refl _
  | step run step guarded ih => exact ih.trans (step_keepsClosed hidle (h.append run) step)

/-- The commit of a deletion closes the session and keeps its high-water mark. -/
theorem step_deletes (hidle : c₀.allIdle) (h : (system provider).Run guard c₀ log c) {i : ι}
    {line : RuntimeLine} {x : Program.Exchange interface World}
    (hstep : (system provider).Step c (.exchange i (.operate line .deleteSession) x) c')
    (hchanged : x.after.durable ≠ x.before.durable) :
    c'.world.durable.state.phase = .deleted x.before.durable.state.phase.prekeyHighWater ∧
      c'.world.durable.pending = [] := by
  obtain ⟨_, hafter, hsame | ⟨_, _, heq, hcommitted⟩ | ⟨_, _, _, _, heq, _⟩⟩ :=
    exchange_durable hidle h hstep
  · exact absurd hsame hchanged
  · cases heq
    obtain ⟨plan, pending, hplans, _, _, hworld⟩ := hcommitted.planned
    obtain ⟨unused, hdecided⟩ := hplans.decided
    obtain ⟨_, hplan⟩ := Endpoint.mayOk_decideDeleteSession _ hdecided
    cases hplan
    cases hplans.items
    rw [← hafter, hworld, ← deletion_highWater]
    exact ⟨rfl, rfl⟩
  · cases heq

/-- In a run from a closed session every call in progress has started in a closed session. -/
theorem run_origin (hidle : c₀.allIdle) (h : (system provider).Run guard c₀ log c)
    (hclosed : Closed c.world.durable) {i : ι}
    (hthread : ∀ call origin trace rest, c.thread i = .busy call origin trace rest →
      Closed origin.durable)
    (hlater : (system provider).Run guard c log' c') :
    ∀ call origin trace rest, c'.thread i = .busy call origin trace rest →
      Closed origin.durable := by
  induction hlater with
  | start => exact hthread
  | @step log' d d' event run step guarded ih =>
    intro call origin trace rest hbusy
    by_cases hi : event.actor = some i
    · cases step with
      | start call' idle =>
        cases hi
        simp only [Function.update_self, System.Thread.busy.injEq] at hbusy
        obtain ⟨rfl, rfl, _⟩ := hbusy
        exact (run_keepsClosed hidle h run hclosed).symm ▸ hclosed
      | exchange busy handled =>
        cases hi
        simp only [Function.update_self, System.Thread.busy.injEq] at hbusy
        obtain ⟨rfl, rfl, _⟩ := hbusy
        exact ih _ _ _ _ busy
      | finish busy =>
        cases hi
        simp only [Function.update_self] at hbusy
        cases hbusy
      | surroundings moved => cases hi
    · rw [step.other hi] at hbusy
      exact ih call origin trace rest hbusy

theorem run_refuses (hidle : c₀.allIdle) (h : (system provider).Run guard c₀ log c)
    (hclosed : Closed c.world.durable) {i : ι}
    (hthread : ∀ call origin trace rest, c.thread i = .busy call origin trace rest →
      Closed origin.durable)
    (hlater : (system provider).Run guard c log' c') {call : Call}
    {trace : List (Program.Exchange interface World)} {result : call.Result} {w : World}
    (hmem : .finish i call trace result w ∈ log') : call.Refused trace result := by
  induction hlater with
  | start => cases hmem
  | step run step guarded ih =>
    cases hmem with
    | head =>
      cases step with
      | finish busy =>
        refine Call.refused provider call (run_origin hidle h hclosed hthread run _ _ _ _ busy)
          ((h.append run).executes (fun _ => KeepsClosed.refl) (fun _ _ _ _ => KeepsClosed.trans)
          hidle ?_ busy)
        exact fun hrun hstep _ _ _ _ _ _ _ _ => step_keepsClosed hidle hrun hstep
    | tail _ hmem => exact ih hmem

/-- A deletion is complete and final: the session holds nothing any more, its snapshot never moves
again, and every call that starts afterwards is turned away. -/
theorem deletion_absorbing (hidle : c₀.allIdle) (hgenesis : c₀.world.Genesis)
    (h : (system provider).Run guard c₀ log c) {i : ι} {line : RuntimeLine}
    {x : Program.Exchange interface World} {later earlier : List ((system provider).Event ι)}
    (hlog : log = later ++ .exchange i (.operate line .deleteSession) x :: earlier)
    (hchanged : x.after.durable ≠ x.before.durable) :
    (c.world.durable = x.after.durable ∧ c.world.durable.pending = [] ∧
      c.world.durable.state.phase = .deleted x.before.durable.state.phase.prekeyHighWater ∧
      c.world.durable.state.phase.references = [] ∧
      ∀ purpose token, purpose.owned → ¬c.world.keys.adopted purpose token) ∧
    (∀ j call between after, later = after ++ .start j call :: between →
      ∀ call' trace result w, .finish j call' trace result w ∈ after →
        Call.Refused call' trace result) ∧
    ∀ (role : Role) line trace result w, Program.Executes KeepsClosed (handles provider)
      (role.construct line provider).run c.world trace (.done result) w →
        TurnedAway ([], []) trace result := by
  subst hlog
  obtain ⟨d, d', hearlier, hstep, hguard, hlater⟩ := h.split
  have hdeletes := step_deletes hidle hearlier hstep hchanged
  have hd' := hearlier.step hstep hguard
  obtain ⟨_, hafter, _⟩ := exchange_durable hidle hearlier hstep
  have hclosed : Closed d'.world.durable := ⟨⟨_, hdeletes.1⟩, hdeletes.2⟩
  have hkept := run_keepsClosed hidle hd' hlater hclosed
  have hphase : c.world.durable.state.phase =
      .deleted x.before.durable.state.phase.prekeyHighWater := by
    rw [hkept, hdeletes.1]
  have hreferences : c.world.durable.state.phase.references = [] := by
    rw [hphase]
    rfl
  refine ⟨⟨by rw [hkept, hafter], by rw [hkept, hdeletes.2], hphase, hreferences,
    fun purpose token howned hadopted => ?_⟩, ?_, ?_⟩
  · have hmem := ((run_conserved hidle hgenesis h).adopted purpose token howned).mp hadopted
    rw [hreferences] at hmem
    cases hmem
  · rintro j call between after rfl call' trace result w hmem
    obtain ⟨e, e', hbetween, hstart, hguarded, hlast⟩ := hlater.split
    have he' := hbetween.step hstart hguarded
    have hstarted := run_keepsClosed hidle hd' he' hclosed
    refine run_refuses hidle (hd'.append he') (hstarted.symm ▸ hclosed) ?_ hlast hmem
    intro call origin trace rest hbusy
    cases hstart with
    | start call idle =>
      simp only [Function.update_self, System.Thread.busy.injEq] at hbusy
      obtain ⟨rfl, rfl, _⟩ := hbusy
      exact (run_keepsClosed hidle hd' hbetween hclosed).symm ▸ hclosed
  · intro role line trace result w hrun
    exact Role.refused provider line role (hkept.symm ▸ hclosed) hrun

end

/-! ## A new initiator that is deleted -/

namespace Closing

def provider : Provider := tableProvider [] []

def line : RuntimeLine := ⟨.zero 32, .zero 32⟩

def world : World :=
  .stocked .initiator [(0, ⟨.staged, .x25519 (.zero 32)⟩)] (List.nodup_singleton _)

theorem world_genesis : world.Genesis :=
  World.stocked_genesis (.inl rfl) (by decide)

def plan : Plan Unit := ⟨⟨.deleted none⟩, [], .ok [], ()⟩

def deleted : World := world.advance plan.next [] plan.mutations

theorem deletes : ∃ reads,
    ((Call.operate line .deleteSession).program provider).Plays (serve provider 0) world
      (reads ++ [committing world plan []]) (.ok ()) deleted := by
  have hdecided : (served provider 0 world).mayOk
      (Operation.deleteSession.decide (endpoint line provider) world.durable)
      (.commit plan none) := rfl
  obtain ⟨reads, hplays, _⟩ := @Operation.plays_of_commit provider line .deleteSession 0 world plan
    [] _ hdecided rfl rfl (by decide) (fun _ h => absurd h List.not_mem_nil)
  exact ⟨reads, hplays⟩

theorem follows (call : Call) : ∃ first earlier trace,
    (system provider).Run (fun _ _ => True) (atRest provider Unit world)
      (callEvents () call trace ((call.program provider).run (serve provider 0) deleted).1
          ((call.program provider).run (serve provider 0) deleted).2 ++
        .finish () (Call.operate line .deleteSession) first (.ok ()) deleted ::
        .exchange () (Call.operate line .deleteSession) (committing world plan []) :: earlier)
      (atRest provider Unit ((call.program provider).run (serve provider 0) deleted).2) := by
  obtain ⟨reads, hdeletes⟩ := deletes
  have hcalled := run_calls () hdeletes
    (Program.Plays.self (serve provider 0) (call.program provider) deleted)
  rw [callEvents_concat] at hcalled
  exact ⟨_, _, _, hcalled⟩

theorem moved : (committing world plan []).after.durable ≠
    (committing world plan []).before.durable :=
  fun heq => absurd (congrArg Versioned.revision heq) (by decide)

/-- After the deletion of a new initiator a read of its pending items is turned away. -/
theorem deletion_absorbing_new_initiator : ∃ log c trace result w,
    (system provider).Run (fun _ _ => True) (atRest provider Unit world) log c ∧
    c.world.durable.state.phase = .deleted none ∧
    .finish () (Call.serve line .pendingItems) trace result w ∈ log ∧
    Call.Refused (.serve line .pendingItems) trace result := by
  obtain ⟨first, earlier, trace, hrun⟩ := follows (.serve line .pendingItems)
  obtain ⟨⟨_, _, hphase, _⟩, hlater, _⟩ := deletion_absorbing (atRest_allIdle world) world_genesis
    hrun (List.append_cons _ _ _) moved
  exact ⟨_, _, _, _, _, hrun, hphase, List.mem_cons_self,
    hlater () _ _ _ callEvents_append _ _ _ _ List.mem_cons_self⟩

def send : Call := .operate line (.sendRecord [] (some ⟨0⟩))

theorem send_run : (send.program provider).run (serve provider 0) deleted =
    (.error deletedError, deleted.abort .x25519Private 0) := rfl

/-- A call on a deleted session gives up the key that its caller has staged. -/
theorem staged_key_given_up : world.Genesis ∧ ∃ first earlier trace w,
    (system provider).Run (fun _ _ => True) (atRest provider Unit world)
      (callEvents () send trace (.error deletedError) w ++
        .finish () (Call.operate line .deleteSession) first (.ok ()) deleted ::
        .exchange () (Call.operate line .deleteSession) (committing world plan []) :: earlier)
      (atRest provider Unit w) ∧
    (committing world plan []).after = deleted ∧ deleted.durable ≠ world.durable ∧
    deleted.keys 0 = some ⟨.staged, .x25519 (.zero 32)⟩ ∧ w.keys 0 = none := by
  obtain ⟨first, earlier, trace, hrun⟩ := follows send
  rw [send_run] at hrun
  exact ⟨world_genesis, first, earlier, trace, _, hrun, rfl, moved, rfl, rfl⟩

end Closing

end LicoArc
