import LicoArc.Interaction.Threads

/-!
# Calls without interference

A handler answers each request by a function of the world. A call that runs
alone against such a handler is a run of the system, with the exchanges that
the handler makes.
-/

namespace LicoArc

variable {σ : Interface} {W : Type}

/-- The exchanges of a program against a handler. -/
def Program.trace {α : Type} (handler : (request : σ.Request) → W → σ.Reply request × W) :
    Program σ α → W → List (Program.Exchange σ W)
  | done _, _ => []
  | ask request next, w =>
    ⟨w, request, (handler request w).1, (handler request w).2⟩ ::
      (next (handler request w).1).trace handler (handler request w).2

theorem Program.trace_bind {α β : Type}
    (handler : (request : σ.Request) → W → σ.Reply request × W) (p : Program σ α)
    (f : α → Program σ β) (w : W) :
    (p >>= f).trace handler w =
      p.trace handler w ++ (f (p.run handler w).1).trace handler (p.run handler w).2 := by
  induction p generalizing w with
  | done a => rfl
  | ask request next ih =>
    rw [Program.ask_bind, trace, trace, ih]
    rfl

theorem Program.forall_trace {α : Type} {handler : (request : σ.Request) → W → σ.Reply request × W}
    {property : Program.Exchange σ W → Prop}
    (h : ∀ request w, property ⟨w, request, (handler request w).1, (handler request w).2⟩)
    (p : Program σ α) (w : W) : ∀ x ∈ p.trace handler w, property x := by
  induction p generalizing w with
  | done a => exact fun _ hx => absurd hx List.not_mem_nil
  | ask request next ih =>
    intro x hx
    rcases List.mem_cons.mp hx with rfl | hx
    · exact h request w
    · exact ih _ _ x hx

/-- The result, the exchanges and the last world of a program against a handler. -/
structure Program.Plays {α : Type} (handler : (request : σ.Request) → W → σ.Reply request × W)
    (p : Program σ α) (w : W) (trace : List (Program.Exchange σ W)) (a : α) (w' : W) : Prop where
  run : p.run handler w = (a, w')
  trace : p.trace handler w = trace

theorem Program.Plays.self {α : Type} (handler : (request : σ.Request) → W → σ.Reply request × W)
    (p : Program σ α) (w : W) :
    p.Plays handler w (p.trace handler w) (p.run handler w).1 (p.run handler w).2 :=
  ⟨rfl, rfl⟩

theorem Program.Plays.done {α : Type} {handler : (request : σ.Request) → W → σ.Reply request × W}
    (a : α) (w : W) : (Program.done a : Program σ α).Plays handler w [] a w :=
  ⟨rfl, rfl⟩

/-- A program that is alone runs among others that do nothing. -/
theorem Program.Plays.executes {α : Type}
    {handler : (request : σ.Request) → W → σ.Reply request × W} {rely : W → W → Prop}
    {handles : W → (request : σ.Request) → σ.Reply request → W → Prop}
    (hhandler : ∀ request w, handles w request (handler request w).1 (handler request w).2)
    (refl : ∀ w, rely w w) {p : Program σ α} {w w' : W} {a : α}
    {trace : List (Program.Exchange σ W)} (h : p.Plays handler w trace a w') :
    Program.Executes rely handles p w trace (.done a) w' := by
  obtain ⟨hrun, rfl⟩ := h
  induction p generalizing w with
  | done b =>
    cases hrun
    exact .wait (refl _)
  | ask request next ih => exact .ask (refl _) (hhandler request _) (ih _ hrun)

theorem Program.Plays.bind {α β : Type} {handler : (request : σ.Request) → W → σ.Reply request × W}
    {p : Program σ β} {f : β → Program σ α} {w w₁ w₂ : W} {b : β} {a : α}
    {first second : List (Program.Exchange σ W)} (hp : p.Plays handler w first b w₁)
    (hf : (f b).Plays handler w₁ second a w₂) :
    (p >>= f).Plays handler w (first ++ second) a w₂ where
  run := by rw [run_bind, hp.run, hf.run]
  trace := by rw [trace_bind, hp.run, hp.trace, hf.trace]

theorem Program.Plays.ask {α : Type} {handler : (request : σ.Request) → W → σ.Reply request × W}
    {request : σ.Request} {next : σ.Reply request → Program σ α} {w w₁ w₂ : W}
    {reply : σ.Reply request} {a : α} {trace : List (Program.Exchange σ W)}
    (hreply : handler request w = (reply, w₁)) (hnext : (next reply).Plays handler w₁ trace a w₂) :
    (Program.ask request next).Plays handler w (⟨w, request, reply, w₁⟩ :: trace) a w₂ where
  run := by rw [Program.run, hreply, hnext.run]
  trace := by rw [Program.trace, hreply, hnext.trace]

namespace System

variable {ι : Type} [DecidableEq ι] {S : System σ W}
  {guard : S.Config ι → S.Event ι → Prop} {c₀ c : S.Config ι} {log : List (S.Event ι)}
  {handler : (request : σ.Request) → W → σ.Reply request × W}

theorem Run.exchanges
    (hhandler : ∀ request w, S.handles w request (handler request w).1 (handler request w).2)
    {i : ι} {call : S.Call} {origin : W} {rest : Program σ (S.Result call)}
    {trace : List (Program.Exchange σ W)} (h : S.Run guard c₀ log c)
    (hguard : ∀ past x future rest',
      trace ++ rest.trace handler c.world = past ++ x :: future → trace.length ≤ past.length →
      guard ⟨x.before, Function.update c.thread i (.busy call origin past rest')⟩
        (.exchange i call x))
    (hbusy : c.thread i = .busy call origin trace rest) :
    S.Run guard c₀ (((rest.trace handler c.world).map (.exchange i call)).reverse ++ log)
      ⟨(rest.run handler c.world).2, Function.update c.thread i
        (.busy call origin (trace ++ rest.trace handler c.world)
          (.done (rest.run handler c.world).1))⟩ := by
  have hsame : Function.update c.thread i (.busy call origin trace rest) = c.thread :=
    hbusy ▸ Function.update_eq_self i c.thread
  induction rest generalizing c log trace with
  | done result => simpa [Program.trace, Program.run, hsame] using h
  | ask request next ih =>
    have hfirst := hguard trace _ _ (.ask request next) rfl (le_refl _)
    rw [hsame] at hfirst
    have hstep := h.step (.exchange hbusy (hhandler request c.world)) hfirst
    have hrest := ih (handler request c.world).1 hstep ?_ (Function.update_self _ _ _) ?_
    · simpa [Program.trace, Program.run] using hrest
    · intro past x future rest' htrace hlength
      rw [Function.update_idem]
      refine hguard past x future rest' ?_ ?_
      · rw [Program.trace, ← htrace, List.append_assoc]
        rfl
      · rw [List.length_append] at hlength
        omega
    · rw [Function.update_idem]

theorem Run.called
    (hhandler : ∀ request w, S.handles w request (handler request w).1 (handler request w).2)
    (h : S.Run guard c₀ log c) {i : ι} (hidle : c.thread i = .idle) (call : S.Call)
    (hstart : guard c (.start i call))
    (hguard : ∀ past x future rest,
      (S.program call).trace handler c.world = past ++ x :: future →
      guard ⟨x.before, Function.update c.thread i (.busy call c.world past rest)⟩
        (.exchange i call x)) :
    S.Run guard c₀
      ((((S.program call).trace handler c.world).map (.exchange i call)).reverse ++
        .start i call :: log)
      ⟨((S.program call).run handler c.world).2, Function.update c.thread i
        (.busy call c.world ((S.program call).trace handler c.world)
          (.done ((S.program call).run handler c.world).1))⟩ := by
  have hcalled := h.step (.start call hidle) hstart
  have hbusy := hcalled.exchanges hhandler ?_ (Function.update_self _ _ _)
  · simpa using hbusy
  · intro past x future rest htrace _
    rw [Function.update_idem]
    exact hguard past x future rest htrace

theorem Run.exists_busy
    (hhandler : ∀ request w, S.handles w request (handler request w).1 (handler request w).2)
    (h : S.Run guard c₀ log c) {i : ι} (hidle : c.thread i = .idle) (call : S.Call)
    (hstart : guard c (.start i call))
    (hguard : ∀ past x future rest,
      (S.program call).trace handler c.world = past ++ x :: future →
      guard ⟨x.before, Function.update c.thread i (.busy call c.world past rest)⟩
        (.exchange i call x)) :
    ∃ log' c', S.Run guard c₀ log' c' ∧ c'.thread i = .busy call c.world
      ((S.program call).trace handler c.world) (.done ((S.program call).run handler c.world).1) :=
  ⟨_, _, h.called hhandler hidle call hstart hguard, Function.update_self _ _ _⟩

theorem Run.call
    (hhandler : ∀ request w, S.handles w request (handler request w).1 (handler request w).2)
    (h : S.Run guard c₀ log c) {i : ι} (hidle : c.thread i = .idle) (call : S.Call)
    (hstart : guard c (.start i call))
    (hguard : ∀ past x future rest,
      (S.program call).trace handler c.world = past ++ x :: future →
      guard ⟨x.before, Function.update c.thread i (.busy call c.world past rest)⟩
        (.exchange i call x))
    (hfinish : ∀ c trace result w, guard c (.finish i call trace result w)) :
    S.Run guard c₀
      (.finish i call ((S.program call).trace handler c.world)
          ((S.program call).run handler c.world).1 ((S.program call).run handler c.world).2 ::
        ((((S.program call).trace handler c.world).map (.exchange i call)).reverse ++
          .start i call :: log))
      ⟨((S.program call).run handler c.world).2, c.thread⟩ := by
  have hbusy := h.called hhandler hidle call hstart hguard
  have hdone := hbusy.step (.finish (Function.update_self _ _ _)) (hfinish _ _ _ _)
  have hsame : Function.update c.thread i .idle = c.thread :=
    hidle ▸ Function.update_eq_self i c.thread
  simpa [hsame] using hdone

end System

end LicoArc
