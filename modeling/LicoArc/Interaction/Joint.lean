import LicoArc.Interaction.Threads

/-!
# Systems side by side

Each party runs the threads of a system over a world of its own. The parties
move in any order, one at a time, and a guard that sees the worlds of all of
them limits what a party does. For one party the run is a run of its system, and
what the guard asked of a call when it started still holds while the call is
busy, provided that it is kept by every step.
-/

namespace LicoArc.System

variable {σ : Interface} {W ι P : Type} [DecidableEq ι] [DecidableEq P] {S : System σ W}

/-- The runs of all parties, with the newest event first. -/
inductive Joint (S : System σ W) (guard : (P → S.Config ι) → P → S.Event ι → Prop)
    (c₀ : P → S.Config ι) : List (P × S.Event ι) → (P → S.Config ι) → Prop
  | start : S.Joint guard c₀ [] c₀
  | step {log : List (P × S.Event ι)} {c : P → S.Config ι} {party : P} {event : S.Event ι}
      {next : S.Config ι} (run : S.Joint guard c₀ log c) (step : S.Step (c party) event next)
      (guarded : guard c party event) :
      S.Joint guard c₀ ((party, event) :: log) (Function.update c party next)

def eventsOf (party : P) (log : List (P × S.Event ι)) : List (S.Event ι) :=
  log.filterMap fun entry => if entry.1 = party then some entry.2 else none

omit [DecidableEq ι] in
theorem eventsOf_cons_self (party : P) (event : S.Event ι) (log : List (P × S.Event ι)) :
    eventsOf party ((party, event) :: log) = event :: eventsOf party log :=
  List.filterMap_cons_some (if_pos rfl)

omit [DecidableEq ι] in
theorem eventsOf_cons_ne {party other : P} (h : other ≠ party) (event : S.Event ι)
    (log : List (P × S.Event ι)) : eventsOf party ((other, event) :: log) = eventsOf party log :=
  List.filterMap_cons_none (if_neg h)

section

variable {guard : (P → S.Config ι) → P → S.Event ι → Prop} {c₀ c : P → S.Config ι}
  {log : List (P × S.Event ι)}

theorem Joint.run_of {own : P → S.Config ι → S.Event ι → Prop}
    (howns : ∀ {c party event}, guard c party event → own party (c party) event)
    (h : S.Joint guard c₀ log c) (party : P) :
    S.Run (own party) (c₀ party) (eventsOf party log) (c party) := by
  induction h with
  | start => exact .start
  | @step log c acting event next run step guarded ih =>
    by_cases hparty : acting = party
    · subst hparty
      rw [eventsOf_cons_self, Function.update_self]
      exact ih.step step (howns guarded)
    · rw [eventsOf_cons_ne hparty, Function.update_of_ne (Ne.symm hparty)]
      exact ih

/-- One party runs on while the others stand still. -/
theorem Joint.extend {own : S.Config ι → S.Event ι → Prop} (h : S.Joint guard c₀ log c)
    (party : P) (howns : ∀ d event, own d event → guard (Function.update c party d) party event)
    {log' : List (S.Event ι)} {d : S.Config ι} (hrun : S.Run own (c party) log' d) :
    S.Joint guard c₀ (log'.map (Prod.mk party) ++ log) (Function.update c party d) := by
  induction hrun with
  | start => rwa [Function.update_eq_self]
  | @step log' d d' event run step guarded ih =>
    have hstep : S.Step (Function.update c party d party) event d' := by
      rwa [Function.update_self]
    have hnext := ih.step hstep (howns d event guarded)
    rwa [Function.update_idem] at hnext

/-- What the guard asks of a call when it starts holds as long as the call is busy. -/
theorem Joint.started {begins : (P → S.Config ι) → P → S.Call → Prop}
    (hidle : ∀ party, (c₀ party).allIdle)
    (hstart : ∀ {c party i call}, guard c party (.start i call) → begins c party call)
    (hkept : ∀ {c acting event next party call}, S.Step (c acting) event next →
      begins c party call → begins (Function.update c acting next) party call)
    (h : S.Joint guard c₀ log c) {party : P} {i : ι} {call : S.Call} {origin : W}
    {trace : List (Program.Exchange σ W)} {rest : Program σ (S.Result call)}
    (hbusy : (c party).thread i = .busy call origin trace rest) : begins c party call := by
  induction h generalizing party i call origin trace rest with
  | start =>
    rw [hidle party i] at hbusy
    cases hbusy
  | @step log c acting event next run step guarded ih =>
    apply hkept step
    by_cases hparty : acting = party
    · subst hparty
      rw [Function.update_self] at hbusy
      by_cases hi : event.actor = some i
      · cases step with
        | start call' idle =>
          cases hi
          simp only [Function.update_self, Thread.busy.injEq] at hbusy
          obtain ⟨rfl, _⟩ := hbusy
          exact hstart guarded
        | exchange busy handled =>
          cases hi
          simp only [Function.update_self, Thread.busy.injEq] at hbusy
          obtain ⟨rfl, _⟩ := hbusy
          exact ih busy
        | finish busy =>
          cases hi
          simp only [Function.update_self] at hbusy
          cases hbusy
        | surroundings moved => cases hi
      · rw [step.other hi] at hbusy
        exact ih hbusy
    · rw [Function.update_of_ne (Ne.symm hparty)] at hbusy
      exact ih hbusy

end

end LicoArc.System
