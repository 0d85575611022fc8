import LicoArc.Runs
import LicoArc.Interaction.Solo
import LicoArc.Interaction.Trace

/-!
# A backend that serves

The store applies every swap and settlement that the contract allows, the
custody answers from the keys that it holds and the clock stands still. A call
that runs alone against it is a run of the system.
-/

namespace LicoArc

namespace Backend

def unavailable : Error := .terminal .providerFailure .provider

def readKey {α : Type} (w : World) (token : Nat) (read : KeyMaterial → Except Error α) :
    Except Error α :=
  match w.keys token with
  | some record => read record.material
  | none => .error unavailable

def serve (provider : Provider) (now : Nat) : (request : Request) → World → Reply request × World
  | .load, w => (.ok w.durable, w)
  | .compareAndSwap expected commit, w =>
    if expected = w.durable.revision ∧ expected.value < maxSafeInteger ∧
        ∀ mutation ∈ commit.keyMutations, w.keys.permits mutation then
      (.ok ⟨expected.value + 1⟩, w.advance commit.nextState commit.pending commit.keyMutations)
    else (.error (.terminal .conflict .commit), w)
  | .settle revision id, w =>
    if revision = w.durable.revision ∧ revision.value < maxSafeInteger ∧
        ∃ item ∈ w.durable.pending, item.id = id then
      (.ok ⟨revision.value + 1⟩,
        w.advance w.durable.state (w.durable.pending.eraseP fun item => item.id = id) [])
    else (.error (.terminal .conflict .commit), w)
  | .ed25519Public handle, w =>
    (readKey w handle.custodyToken fun
      | .ed25519 seed => .ok (provider.ed25519Public seed)
      | _ => .error unavailable, w)
  | .ed25519Sign handle message, w =>
    (readKey w handle.custodyToken fun
      | .ed25519 seed => .ok (provider.ed25519Sign seed message)
      | _ => .error unavailable, w)
  | .mlDsa65Public handle, w =>
    (readKey w handle.custodyToken fun
      | .mlDsa65 seed => .ok (provider.mlDsa65Public seed)
      | _ => .error unavailable, w)
  | .mlDsa65Sign handle message, w =>
    (readKey w handle.custodyToken fun
      | .mlDsa65 seed => .ok (provider.mlDsa65Sign seed message)
      | _ => .error unavailable, w)
  | .x25519Public handle, w =>
    (readKey w handle.custodyToken fun
      | .x25519 key => .ok (provider.x25519Public key)
      | _ => .error unavailable, w)
  | .x25519 handle peer, w =>
    (readKey w handle.custodyToken fun
      | .x25519 key => provider.x25519 key peer
      | _ => .error unavailable, w)
  | .mlKem768Public handle, w =>
    (readKey w handle.custodyToken fun
      | .mlKem768 seed => .ok (provider.mlKem768Public seed)
      | _ => .error unavailable, w)
  | .mlKem768Encapsulate peer entropy, w =>
    (readKey w entropy.custodyToken fun
      | .mlKemEntropy bytes => provider.mlKem768Encapsulate peer bytes
      | _ => .error unavailable, w)
  | .mlKem768Decapsulate handle ciphertext, w =>
    (readKey w handle.custodyToken fun
      | .mlKem768 seed => provider.mlKem768Decapsulate seed ciphertext
      | _ => .error unavailable, w)
  | .abortX25519 staged, w => ((), w.abort .x25519Private staged.custodyToken)
  | .abortMlKem768 staged, w => ((), w.abort .mlKem768Private staged.custodyToken)
  | .now, w => (.ok now, w)
  | .carry _, w => (.ok (), w)
  | .apply _, w => (.ok (), w)
  | .release _, w => (.ok (), w)

theorem readKey_eq_ok {α : Type} {w : World} {token : Nat} {read : KeyMaterial → Except Error α}
    {value : α} (h : readKey w token read = .ok value) :
    ∃ material, (token, material) ∈ w.issued ∧ read material = .ok value := by
  rw [readKey] at h
  cases hrecord : w.keys token with
  | none => simp [hrecord] at h
  | some record =>
    rw [hrecord] at h
    exact ⟨record.material, w.known token record hrecord, h⟩

theorem handles_serve (provider : Provider) (now : Nat) (request : Request) (w : World) :
    handles provider w request (serve provider now request w).1
      (serve provider now request w).2 := by
  cases request with
  | load => exact ⟨rfl, fun _ h => (Except.ok.inj h).symm⟩
  | compareAndSwap expected commit =>
    rw [serve]
    split
    · rename_i h
      have hswapped : w.Swapped expected commit
          (w.advance commit.nextState commit.pending commit.keyMutations) :=
        ⟨h.1, h.2.1, h.2.2, rfl⟩
      exact ⟨.inr hswapped, fun _ => hswapped⟩
    · exact ⟨.inl rfl, nofun⟩
  | settle revision id =>
    rw [serve]
    split
    · rename_i h
      have hsettled : w.Settled revision id
          (w.advance w.durable.state (w.durable.pending.eraseP fun item => item.id = id) []) :=
        ⟨h.1, h.2.1, h.2.2, rfl⟩
      exact ⟨.inr hsettled, fun _ _ => hsettled⟩
    · exact ⟨.inl rfl, nofun⟩
  | abortX25519 staged => exact rfl
  | abortMlKem768 staged => exact rfl
  | now => exact ⟨rfl, trivial⟩
  | carry packet => exact ⟨rfl, trivial⟩
  | apply effect => exact ⟨rfl, trivial⟩
  | release plaintext => exact ⟨rfl, trivial⟩
  | _ =>
    refine ⟨rfl, fun value hvalue => ?_⟩
    simp only [serve] at hvalue
    obtain ⟨material, hissued, hread⟩ := readKey_eq_ok hvalue
    cases material <;> try contradiction
    first
      | exact ⟨_, hissued, hread⟩
      | exact ⟨_, hissued, (Except.ok.inj hread).symm⟩

/-- The results of a program whose requests are all served in one world. -/
def served (provider : Provider) (now : Nat) (w : World) : Outcomes (Program interface) :=
  Program.outcomes fun request reply => reply = (serve provider now request w).1

theorem serve_of_quiet {provider : Provider} {now : Nat} {request : Request} {w : World}
    (h : request.quiet) : (serve provider now request w).2 = w := by
  cases request <;> first | rfl | cases h

theorem serve_swap {provider : Provider} {now : Nat} {w : World} {commit : Commit EndpointState}
    (hrevision : w.durable.revision.value < maxSafeInteger)
    (hpermits : ∀ mutation ∈ commit.keyMutations, w.keys.permits mutation) :
    serve provider now (.compareAndSwap w.durable.revision commit) w =
      (.ok ⟨w.durable.revision.value + 1⟩,
        w.advance commit.nextState commit.pending commit.keyMutations) := by
  rw [serve, if_pos ⟨rfl, hrevision, hpermits⟩]

end Backend

open Backend

def committing {α : Type} (w : World) (plan : Plan α) (pending : List PendingItem) :
    Program.Exchange interface World :=
  ⟨w, Request.compareAndSwap w.durable.revision ⟨plan.next, plan.mutations, pending⟩,
    Except.ok ⟨w.durable.revision.value + 1⟩, w.advance plan.next pending plan.mutations⟩

section

variable {α : Type} {provider : Provider} {line : RuntimeLine} {now : Nat} {w : World}
  {plan : Plan α} {pending : List PendingItem}

theorem plays_commit {commit : Commit EndpointState}
    (hbounded : Commit.bounded plan.next plan.mutations pending maxEndpointKeyMutations 16 =
      .ok commit)
    (hrevision : w.durable.revision.value < maxSafeInteger)
    (hpermits : ∀ mutation ∈ plan.mutations, w.keys.permits mutation) :
    (commitReplacingPending store w.durable plan.next plan.mutations pending).run.Plays
      (serve provider now) w [committing w plan pending] (.ok ())
      (w.advance plan.next pending plan.mutations) := by
  obtain ⟨_, _, _, _, rfl⟩ := Commit.bounded_eq_ok.mp hbounded
  have hsuccessor : w.durable.revision.successor = .ok ⟨w.durable.revision.value + 1⟩ :=
    Revision.successor_eq_ok.mpr ⟨hrevision, rfl⟩
  rw [commitReplacingPending_run hsuccessor hbounded]
  refine .ask (@serve_swap provider now w ⟨plan.next, plan.mutations, pending⟩ hrevision
    hpermits) ?_
  rw [afterSwap, reject_of_not _ (not_not.mpr rfl)]
  exact .done _ _

theorem plays_execute {abandon : Program interface Unit} {adapt : Error → Error}
    {commit : Commit EndpointState} (hpending : plan.pending = .ok pending)
    (hbounded : Commit.bounded plan.next plan.mutations pending maxEndpointKeyMutations 16 =
      .ok commit)
    (hrevision : w.durable.revision.value < maxSafeInteger)
    (hpermits : ∀ mutation ∈ plan.mutations, w.keys.permits mutation) :
    ((endpoint line provider).execute w.durable plan abandon adapt).Plays (serve provider now) w
      [committing w plan pending] (.ok plan.value)
      (w.advance plan.next pending plan.mutations) := by
  rw [Endpoint.execute, hpending]
  exact .bind (plays_commit hbounded hrevision hpermits) (.done _ _)

end

theorem Operation.plays_decide {provider : Provider} {line : RuntimeLine} {operation : Operation}
    {now : Nat} {w : World} {current : Snapshot} {decision : Decision operation.Value}
    (h : (served provider now w).mayOk (operation.decide (endpoint line provider) current)
      decision) :
    (operation.decide (endpoint line provider) current).run.run (serve provider now) w =
      (.ok decision, w) := by
  refine Program.run_eq_of_yields (fun request hquiet => ⟨serve_of_quiet hquiet, fun _ h => h⟩)
    (decide_quiet line provider operation current) ?_
  exact h

/-- An operation that runs alone and decides on a commit that the contract allows makes it. -/
theorem Operation.plays_of_commit {provider : Provider} {line : RuntimeLine}
    {operation : Operation} {now : Nat} {w : World} {plan : Plan operation.Value}
    {pending : List PendingItem} {commit : Commit EndpointState}
    (hdecided : (served provider now w).mayOk (operation.decide (endpoint line provider) w.durable)
      (.commit plan none))
    (hpending : plan.pending = .ok pending)
    (hbounded : Commit.bounded plan.next plan.mutations pending maxEndpointKeyMutations 16 =
      .ok commit)
    (hrevision : w.durable.revision.value < maxSafeInteger)
    (hpermits : ∀ mutation ∈ plan.mutations, w.keys.permits mutation) :
    ∃ reads, (operation.program (endpoint line provider)).Plays (serve provider now) w
        (reads ++ [committing w plan pending]) (.ok plan.value)
        (w.advance plan.next pending plan.mutations) ∧
      ∀ x ∈ reads, Request.isSwap x.request = false := by
  have hload : (endpoint line provider).store.load.Plays (serve provider now) w
      [⟨w, Request.load, .ok w.durable, w⟩] (.ok w.durable) w := ⟨rfl, rfl⟩
  have hdecide : (operation.decide (endpoint line provider) w.durable).run.Plays
      (serve provider now) w
      ((operation.decide (endpoint line provider) w.durable).run.trace (serve provider now) w)
      (.ok (.commit plan none)) w := ⟨plays_decide hdecided, rfl⟩
  refine ⟨[⟨w, Request.load, .ok w.durable, w⟩] ++
    (operation.decide (endpoint line provider) w.durable).run.trace (serve provider now) w, ?_, ?_⟩
  · rw [program_eq_perform, Endpoint.perform, List.append_assoc]
    exact .bind hload (.bind hdecide (plays_execute hpending hbounded hrevision hpermits))
  · have hreads := @Program.Plays.executes _ _ _ _ (fun _ _ => True) _
      (fun request w => handles_serve provider now request w) (fun _ => trivial) _ _ _ _ _ hdecide
    intro x hx
    rcases List.mem_append.mp hx with hx | hx
    · cases List.mem_singleton.mp hx
      rfl
    · have hquiet := Program.Executes.only (decide_quiet line provider operation w.durable)
        hreads x hx
      cases hrequest : x.request <;> rw [hrequest] at hquiet <;> first | rfl | cases hquiet

/-- An operation that runs alone and fails to decide gives up what was staged for it. -/
theorem Operation.run_of_fails {provider : Provider} {line : RuntimeLine} {operation : Operation}
    {now : Nat} {w : World} {error : Error}
    (h : (served provider now w).mayFail (operation.decide (endpoint line provider) w.durable)
      error) :
    (operation.program (endpoint line provider)).run (serve provider now) w =
      (.error error, ((operation.abandon (endpoint line provider)).run (serve provider now)
      w).2) := by
  have hload : (endpoint line provider).store.load.run (serve provider now) w =
      (.ok w.durable, w) := rfl
  have hdecide : (operation.decide (endpoint line provider) w.durable).run.run
      (serve provider now) w = (.error error, w) := by
    refine Program.run_eq_of_yields (fun request hquiet => ⟨serve_of_quiet hquiet, fun _ h => h⟩)
      (decide_quiet line provider operation w.durable) ?_
    exact h
  rw [program_eq_perform, Endpoint.perform]
  have habandoned : (operation.abandon (endpoint line provider) >>= fun _ =>
      pure (Except.error error) : Program interface (Except Error operation.Value)).Plays
        (serve provider now) w
        ((operation.abandon (endpoint line provider)).trace (serve provider now) w ++ [])
        (.error error) ((operation.abandon (endpoint line provider)).run (serve provider now)
          w).2 :=
    .bind (.self _ _ _) (.done _ _)
  exact (Program.Plays.bind ⟨hload, rfl⟩ (Program.Plays.bind ⟨hdecide, rfl⟩ habandoned)).run

section

variable {provider : Provider} {line : RuntimeLine} {now : Nat} {w w₁ w₂ : World} {α β : Type}

theorem plays_bind {x : ExceptT Error (Program interface) α}
    {f : α → ExceptT Error (Program interface) β} {a : α} {r : Except Error β}
    {first second : List (Program.Exchange interface World)}
    (hx : x.run.Plays (serve provider now) w first (.ok a) w₁)
    (hf : (f a).run.Plays (serve provider now) w₁ second r w₂) :
    (x >>= f).run.Plays (serve provider now) w (first ++ second) r w₂ :=
  Program.Plays.bind hx hf

theorem plays_lift {x : Except Error α} {a : α} (h : x = .ok a) :
    (lift x : ExceptT Error (Program interface) α).run.Plays (serve provider now) w []
    (.ok a) w := by
  subst h
  exact .done _ _

theorem plays_load : (ExceptT.mk (store.load) :
    ExceptT Error (Program interface) Snapshot).run.Plays (serve provider now) w
    [⟨w, Request.load, .ok w.durable, w⟩] (.ok w.durable) w := ⟨rfl, rfl⟩

theorem Service.plays_dispatch {id : PendingId} {packet : Bytes}
    (hlive : ensureLive w.durable.state = .ok ())
    (hfind : w.durable.pending.find? (·.id = id) = some ⟨id, .packet packet⟩)
    (hrevision : w.durable.revision.value < maxSafeInteger) :
    ∃ trace, (Service.program (endpoint line provider) (.dispatchPending id)).Plays
      (serve provider now) w trace (.ok ()) (w.advance w.durable.state
        (w.durable.pending.eraseP fun item => item.id = id) []) := by
  have hitem := List.mem_of_find?_eq_some hfind
  have hfound : ((endpoint line provider).findPending id).run.Plays (serve provider now) w _
      (.ok (w.durable.revision, ⟨id, .packet packet⟩)) w :=
    plays_bind plays_load (plays_bind (plays_lift hlive)
      (plays_bind (plays_lift (by rw [hfind]; rfl)) (.done _ _)))
  have hloaded : (loadPending store w.durable.revision ⟨id, .packet packet⟩).run.Plays
      (serve provider now) w _ (.ok ()) w :=
    plays_bind plays_load (plays_bind (plays_lift (reject_of_not _ (not_not.mpr rfl)))
      (plays_lift (reject_of_not _ (not_not.mpr hitem))))
  have hsettle : serve provider now (.settle w.durable.revision id) w =
      (.ok ⟨w.durable.revision.value + 1⟩, w.advance w.durable.state
        (w.durable.pending.eraseP fun item => item.id = id) []) := by
    rw [serve, if_pos ⟨rfl, hrevision, _, hitem, rfl⟩]
  have hsettled : (ExceptT.mk (store.settle w.durable.revision id) :
      ExceptT Error (Program interface) Revision).run.Plays (serve provider now) w _
        (.ok ⟨w.durable.revision.value + 1⟩) _ := .ask hsettle (.done _ _)
  have hcarried : (ExceptT.mk (carrier.send packet) :
      ExceptT Error (Program interface) Unit).run.Plays (serve provider now) w _ (.ok ()) w :=
    ⟨rfl, rfl⟩
  exact ⟨_, plays_bind hfound (plays_bind (plays_bind hloaded (plays_bind hcarried hsettled))
    (.done _ _))⟩

end

/-! ## Runs of calls that are alone -/

section

variable {ι : Type} [DecidableEq ι] {provider : Provider}
  {guard : (system provider).Config ι → (system provider).Event ι → Prop}
  {c₀ c : (system provider).Config ι} {log : List ((system provider).Event ι)}

def callEvents (i : ι) (call : Call) (trace : List (Program.Exchange interface World))
    (result : call.Result) (w : World) : List ((system provider).Event ι) :=
  .finish i call trace result w :: ((trace.map (.exchange i call)).reverse ++ [.start i call])

omit [DecidableEq ι] in
theorem callEvents_concat {i : ι} {call : Call} {trace : List (Program.Exchange interface World)}
    {x : Program.Exchange interface World} {result : call.Result} {w : World} :
    (callEvents i call (trace ++ [x]) result w : List ((system provider).Event ι)) =
      .finish i call (trace ++ [x]) result w :: .exchange i call x ::
        ((trace.map (.exchange i call)).reverse ++ [.start i call]) := by
  rw [callEvents, List.map_append, List.reverse_append]
  rfl

omit [DecidableEq ι] in
theorem callEvents_append {i : ι} {call : Call} {trace : List (Program.Exchange interface World)}
    {result : call.Result} {w : World} {log : List ((system provider).Event ι)} :
    callEvents i call trace result w ++ log =
      (.finish i call trace result w :: (trace.map (.exchange i call)).reverse) ++
        .start i call :: log := by
  rw [callEvents, List.cons_append, List.append_assoc]
  rfl

omit [DecidableEq ι] in
theorem exchange_mem_callEvents {i : ι} {call : Call}
    {trace : List (Program.Exchange interface World)} {result : call.Result} {w : World}
    {x : Program.Exchange interface World} (hx : x ∈ trace) :
    .exchange i call x ∈ (callEvents i call trace result w : List ((system provider).Event ι)) := by
  refine List.mem_cons_of_mem _ (List.mem_append_left _ (List.mem_reverse.mpr ?_))
  exact List.mem_map_of_mem hx

theorem run_call {now : Nat} {i : ι} {call : Call} {trace : List (Program.Exchange interface World)}
    {result : call.Result} {w : World} (hguard : ∀ c event, guard c event)
    (h : (system provider).Run guard c₀ log c) (hidle : c.thread i = .idle)
    (hplays : (call.program provider).Plays (serve provider now) c.world trace result w) :
    (system provider).Run guard c₀ (callEvents i call trace result w ++ log) ⟨w, c.thread⟩ := by
  have hcall := h.call (fun request w => handles_serve provider now request w) hidle call
    (hguard _ _) (fun _ _ _ _ _ => hguard _ _) (fun _ _ _ _ => hguard _ _)
  have hrun : ((system provider).program call).run (serve provider now) c.world = (result, w) :=
    hplays.run
  have htrace : ((system provider).program call).trace (serve provider now) c.world = trace :=
    hplays.trace
  rw [hrun, htrace] at hcall
  rw [callEvents, List.cons_append, List.append_assoc]
  exact hcall

theorem run_calls {now : Nat} {w w₁ w₂ : World} {first second : Call}
    {trace trace' : List (Program.Exchange interface World)} {result : first.Result}
    {result' : second.Result} (i : ι)
    (hfirst : (first.program provider).Plays (serve provider now) w trace result w₁)
    (hsecond : (second.program provider).Plays (serve provider now) w₁ trace' result' w₂) :
    (system provider).Run (fun _ _ => True) (atRest provider ι w)
      (callEvents i second trace' result' w₂ ++ callEvents i first trace result w₁)
      (atRest provider ι w₂) := by
  have hcalled := run_call (fun _ _ => trivial) .start (atRest_allIdle w i) hfirst
  rw [List.append_nil] at hcalled
  exact run_call (i := i) (fun _ _ => trivial) hcalled rfl hsecond

/-- A run goes on with a call that is alone, against any handler that keeps the contract. -/
theorem run_then {handler : (request : Request) → World → Reply request × World}
    (hhandler : ∀ request w, handles provider w request (handler request w).1 (handler request w).2)
    {w w' : World} (h : (system provider).Run guard c₀ log (atRest provider ι w)) (i : ι)
    (call : Call) (hstart : guard (atRest provider ι w) (.start i call))
    (hguard : ∀ past x future rest,
      (call.program provider).trace handler w = past ++ x :: future →
      guard ⟨x.before, Function.update (fun _ => .idle) i (.busy call w past rest)⟩
        (.exchange i call x))
    (hfinish : ∀ c trace result w, guard c (.finish i call trace result w)) {result : call.Result}
    (hrun : (call.program provider).run handler w = (result, w')) :
    ∃ trace log', (system provider).Run guard c₀ (.finish i call trace result w' :: log')
      (atRest provider ι w') := by
  have hcall := h.call hhandler rfl call hstart hguard hfinish
  have hcalled : ((system provider).program call).run handler w = (result, w') := hrun
  rw [atRest] at hcall
  simp only at hcall
  rw [hcalled] at hcall
  exact ⟨_, _, hcall⟩

end

end LicoArc
