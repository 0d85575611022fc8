import LicoArc.Interaction.Program

/-!
# Threads that share a world

Any number of threads run calls of a system, one exchange at a time, in any
order, while the surroundings may move the world on their own. A guard limits
the runs to those that keep a discipline. Whatever the calls meet one by one
holds of every run.
-/

namespace LicoArc

structure System (σ : Interface) (W : Type) where
  Call : Type
  Result : Call → Type
  program : (call : Call) → Program σ (Result call)
  handles : W → (request : σ.Request) → σ.Reply request → W → Prop
  /-- What may happen to the world outside the threads. -/
  surroundings : W → W → Prop

namespace System

variable {σ : Interface} {W ι : Type}

/-- A busy thread remembers the world in which its call started and the exchanges since then. -/
inductive Thread (S : System σ W)
  | idle
  | busy (call : S.Call) (origin : W) (trace : List (Program.Exchange σ W))
      (rest : Program σ (S.Result call))

structure Config (S : System σ W) (ι : Type) where
  world : W
  thread : ι → S.Thread

inductive Event (S : System σ W) (ι : Type)
  | start (i : ι) (call : S.Call)
  | exchange (i : ι) (call : S.Call) (exchange : Program.Exchange σ W)
  | finish (i : ι) (call : S.Call) (trace : List (Program.Exchange σ W)) (result : S.Result call)
      (world : W)
  | surroundings (before after : W)

def Event.actor {S : System σ W} : S.Event ι → Option ι
  | start i _ | exchange i _ _ | finish i _ _ _ _ => some i
  | surroundings _ _ => none

variable [DecidableEq ι]

inductive Step (S : System σ W) (c : S.Config ι) : S.Event ι → S.Config ι → Prop
  | start {i : ι} (call : S.Call) (idle : c.thread i = .idle) :
      S.Step c (.start i call)
        { c with thread := Function.update c.thread i (.busy call c.world [] (S.program call)) }
  | exchange {i : ι} {call : S.Call} {origin w : W} {trace : List (Program.Exchange σ W)}
      {request : σ.Request} {next : σ.Reply request → Program σ (S.Result call)}
      {reply : σ.Reply request} (busy : c.thread i = .busy call origin trace (.ask request next))
      (handled : S.handles c.world request reply w) :
      S.Step c (.exchange i call ⟨c.world, request, reply, w⟩)
        { world := w
          thread := Function.update c.thread i
            (.busy call origin (trace ++ [⟨c.world, request, reply, w⟩]) (next reply)) }
  | finish {i : ι} {call : S.Call} {origin : W} {trace : List (Program.Exchange σ W)}
      {result : S.Result call} (busy : c.thread i = .busy call origin trace (.done result)) :
      S.Step c (.finish i call trace result c.world)
        { c with thread := Function.update c.thread i .idle }
  | surroundings {w : W} (moved : S.surroundings c.world w) :
      S.Step c (.surroundings c.world w) { c with world := w }

/-- The runs from a configuration whose steps all satisfy the guard, with the newest event first. -/
inductive Run (S : System σ W) (guard : S.Config ι → S.Event ι → Prop) (c₀ : S.Config ι) :
    List (S.Event ι) → S.Config ι → Prop
  | start : S.Run guard c₀ [] c₀
  | step {log : List (S.Event ι)} {c c' : S.Config ι} {event : S.Event ι}
      (run : S.Run guard c₀ log c) (step : S.Step c event c') (guarded : guard c event) :
      S.Run guard c₀ (event :: log) c'

def Config.allIdle {S : System σ W} (c : S.Config ι) : Prop := ∀ i, c.thread i = .idle

variable {S : System σ W} {guard : S.Config ι → S.Event ι → Prop} {c₀ c c' : S.Config ι}
  {log : List (S.Event ι)} {event : S.Event ι}

theorem Step.other (h : S.Step c event c') {i : ι} (hi : event.actor ≠ some i) :
    c'.thread i = c.thread i := by
  cases h with
  | start call idle => exact Function.update_of_ne (fun heq => hi (congrArg some heq.symm)) _ _
  | exchange busy handled =>
    exact Function.update_of_ne (fun heq => hi (congrArg some heq.symm)) _ _
  | finish busy => exact Function.update_of_ne (fun heq => hi (congrArg some heq.symm)) _ _
  | surroundings moved => rfl

theorem Run.world_invariant {I : W → Prop} (hinit : I c₀.world)
    (hexchange : ∀ {log c c' i call x}, S.Run guard c₀ log c → I c.world →
      S.Step c (.exchange i call x) c' → I c'.world)
    (hsurroundings : ∀ {w w'}, I w → S.surroundings w w' → I w')
    (h : S.Run guard c₀ log c) : I c.world := by
  induction h with
  | start => exact hinit
  | step run step guarded ih =>
    cases step with
    | start call idle => exact ih
    | exchange busy handled => exact hexchange run ih (.exchange busy handled)
    | finish busy => exact ih
    | surroundings moved => exact hsurroundings ih moved

theorem Run.append {log' : List (S.Event ι)} (h : S.Run guard c₀ log c)
    (h' : S.Run guard c log' c') : S.Run guard c₀ (log' ++ log) c' := by
  induction h' with
  | start => exact h
  | step _ step guarded ih => exact ih.step step guarded

theorem Run.split {later earlier : List (S.Event ι)}
    (h : S.Run guard c₀ (later ++ event :: earlier) c) :
    ∃ d d', S.Run guard c₀ earlier d ∧ S.Step d event d' ∧ guard d event ∧
      S.Run guard d' later c := by
  induction later generalizing c with
  | nil =>
    cases h with
    | step run step guarded => exact ⟨_, _, run, step, guarded, .start⟩
  | cons newest later ih =>
    cases h with
    | step run step guarded =>
      obtain ⟨d, d', hearlier, hevent, hguard, hlater⟩ := ih run
      exact ⟨d, d', hearlier, hevent, hguard, hlater.step step guarded⟩

section

variable {rely : S.Call → W → W → Prop} {permit : S.Call → σ.Request → W → Prop}
  {post : (call : S.Call) → S.Result call → W → Prop}

/-- What a configuration owes to the threads that are busy in it. -/
def Meeting (rely : S.Call → W → W → Prop) (permit : S.Call → σ.Request → W → Prop)
    (post : (call : S.Call) → S.Result call → W → Prop) (c : S.Config ι) : Prop :=
  ∀ i call origin trace rest, c.thread i = .busy call origin trace rest →
    rest.Meets (rely call) S.handles (permit call) (post call) c.world

def Event.Fine (permit : S.Call → σ.Request → W → Prop)
    (post : (call : S.Call) → S.Result call → W → Prop) : S.Event ι → Prop
  | exchange _ call x => permit call x.request x.before
  | finish _ call _ result world => post call result world
  | start _ _ | surroundings _ _ => True

theorem Step.meeting (refl : ∀ call w, rely call w w)
    (trans : ∀ call a b c, rely call a b → rely call b c → rely call a c)
    (hmeeting : S.Meeting rely permit post c) (h : S.Step c event c')
    (hstart : ∀ i call, event = .start i call →
      (S.program call).Meets (rely call) S.handles (permit call) (post call) c.world)
    (hothers : ∀ i call origin trace rest, event.actor ≠ some i →
      c.thread i = .busy call origin trace rest → rely call c.world c'.world) :
    S.Meeting rely permit post c' ∧ event.Fine permit post := by
  have hkept : ∀ i call origin trace rest, event.actor ≠ some i →
      c'.thread i = .busy call origin trace rest →
      rest.Meets (rely call) S.handles (permit call) (post call) c'.world := by
    intro i call origin trace rest hi hbusy
    rw [h.other hi] at hbusy
    exact (hmeeting i call origin trace rest hbusy).later (trans call)
      (hothers i call origin trace rest hi hbusy)
  cases h with
  | @start i call idle =>
    refine ⟨fun j call' origin trace rest hbusy => ?_, trivial⟩
    by_cases hj : j = i
    · subst hj
      simp only [Function.update_self, Thread.busy.injEq] at hbusy
      obtain ⟨rfl, rfl, rfl, hrest⟩ := hbusy
      cases hrest
      exact hstart _ _ rfl
    · exact hkept j call' origin trace rest (fun heq => hj (Option.some.inj heq).symm) hbusy
  | @exchange i call origin w trace request next reply busy handled =>
    obtain ⟨hpermit, hnext⟩ := hmeeting i call origin trace _ busy c.world (refl call _)
    refine ⟨fun j call' origin' trace' rest hbusy => ?_, hpermit⟩
    by_cases hj : j = i
    · subst hj
      simp only [Function.update_self, Thread.busy.injEq] at hbusy
      obtain ⟨rfl, _, _, hrest⟩ := hbusy
      cases hrest
      exact hnext reply w handled
    · exact hkept j call' origin' trace' rest (fun heq => hj (Option.some.inj heq).symm) hbusy
  | @finish i call origin trace result busy =>
    refine ⟨fun j call' origin' trace' rest hbusy => ?_,
      hmeeting i call origin trace _ busy c.world (refl call _)⟩
    by_cases hj : j = i
    · subst hj
      simp only [Function.update_self] at hbusy
      cases hbusy
    · exact hkept j call' origin' trace' rest (fun heq => hj (Option.some.inj heq).symm) hbusy
  | surroundings moved => exact ⟨fun j call' origin trace rest =>
      hkept j call' origin trace rest nofun, trivial⟩

/-- Whatever every call meets when it starts, every run keeps: each exchange was permitted and each
result satisfies its postcondition. -/
theorem Run.meeting (refl : ∀ call w, rely call w w)
    (trans : ∀ call a b c, rely call a b → rely call b c → rely call a c) (hidle : c₀.allIdle)
    (hstart : ∀ {log c i call}, S.Run guard c₀ log c → guard c (.start i call) →
      (S.program call).Meets (rely call) S.handles (permit call) (post call) c.world)
    (hothers : ∀ {log c event c'}, S.Run guard c₀ log c → S.Step c event c' → guard c event →
      ∀ i call origin trace rest, event.actor ≠ some i →
        c.thread i = .busy call origin trace rest → rely call c.world c'.world)
    (h : S.Run guard c₀ log c) :
    S.Meeting rely permit post c ∧ ∀ event ∈ log, event.Fine permit post := by
  induction h with
  | start =>
    refine ⟨fun i call origin trace rest hbusy => ?_, fun _ h => nomatch h⟩
    rw [hidle i] at hbusy
    cases hbusy
  | @step log c c' event run step guarded ih =>
    obtain ⟨hmeeting, hfine⟩ := step.meeting refl trans ih.1
      (fun i call heq => hstart run (heq ▸ guarded)) (hothers run step guarded)
    refine ⟨hmeeting, fun event' hmem => ?_⟩
    rcases List.mem_cons.mp hmem with rfl | hmem
    · exact hfine
    · exact ih.2 event' hmem

/-- What a busy thread did so far is a part of a run of its call. -/
theorem Run.executes (refl : ∀ call w, rely call w w)
    (trans : ∀ call a b c, rely call a b → rely call b c → rely call a c) (hidle : c₀.allIdle)
    (hothers : ∀ {log c event c'}, S.Run guard c₀ log c → S.Step c event c' → guard c event →
      ∀ i call origin trace rest, event.actor ≠ some i →
        c.thread i = .busy call origin trace rest → rely call c.world c'.world)
    (h : S.Run guard c₀ log c) {i : ι} {call : S.Call} {origin : W}
    {trace : List (Program.Exchange σ W)} {rest : Program σ (S.Result call)}
    (hbusy : c.thread i = .busy call origin trace rest) :
    Program.Executes (rely call) S.handles (S.program call) origin trace rest c.world := by
  induction h generalizing i call origin trace rest with
  | start =>
    rw [hidle i] at hbusy
    cases hbusy
  | @step log c c' event run step guarded ih =>
    by_cases hi : event.actor = some i
    · cases step with
      | start call' idle =>
        cases hi
        simp only [Function.update_self, Thread.busy.injEq] at hbusy
        obtain ⟨rfl, rfl, rfl, hrest⟩ := hbusy
        cases hrest
        exact .wait (refl _ _)
      | exchange busy handled =>
        cases hi
        simp only [Function.update_self, Thread.busy.injEq] at hbusy
        obtain ⟨rfl, rfl, rfl, hrest⟩ := hbusy
        cases hrest
        exact (ih busy).exchange (refl _) handled
      | finish busy =>
        cases hi
        simp only [Function.update_self] at hbusy
        cases hbusy
      | surroundings moved => cases hi
    · rw [step.other hi] at hbusy
      exact (ih hbusy).later (trans call)
        (hothers run step guarded i call origin trace rest hi hbusy)

end

end System

end LicoArc
