import LicoArc.Reliable

/-!
# Accounting of retransmissions

A successful retry sends the packet again on the same route or moves the intent
to another one. The counters of a run of retries are what its steps add up to.
-/

namespace LicoArc

open Reliable

structure Resend where
  route : FixedBytes 32
  intent : FixedBytes 32
  protectedPacket : FixedBytes 32
  deriving DecidableEq

namespace ReliableState

structure Counted (state : ReliableState) : Prop where
  retries : state.retries ≤ maxRetryTransmissions
  migrations : state.migrations ≤ maxRouteMigrations
  transitions : state.transitions ≤ maxStateTransitions

theorem validateCounters_eq_ok {state : ReliableState} {u : Unit} :
    validateCounters state.retries state.migrations state.transitions = .ok u ↔ state.Counted := by
  rw [validateCounters, reject_eq_ok]
  constructor
  · intro h
    exact ⟨by omega, by omega, by omega⟩
  · rintro ⟨hretries, hmigrations, htransitions⟩
    omega

theorem increment_eq_ok {value maximum next : Nat} :
    increment value maximum = .ok next ↔ value < maximum ∧ next = value + 1 := by
  simp only [increment, Except.bind_eq_ok, reject_eq_ok, exists_const, Except.pure_eq,
    Except.ok.injEq, eq_comm (a := next)]
  refine and_congr_left fun _ => ?_
  omega

/-- A retry on the same route. -/
structure Repeats (state : ReliableState) (send : Resend) (next : ReliableState) : Prop where
  same : send.route = state.routeDigest
  room : state.retries < maxRetryTransmissions
  result : next =
    { state with retries := state.retries + 1, transitions := state.transitions + 1 }

/-- A retry on another route. -/
structure Migrates (state : ReliableState) (send : Resend) (next : ReliableState) : Prop where
  moved : send.route ≠ state.routeDigest
  room : state.migrations < maxRouteMigrations
  result : next = { state with
    migrations := state.migrations + 1
    transitions := state.transitions + 1
    routeDigest := send.route
    protectedPacketDigest := send.protectedPacket }

structure Steps (state : ReliableState) (send : Resend) (next : ReliableState) : Prop where
  counted : state.Counted
  unfinished : state.outcome ≠ .effectCompleted ∧ state.outcome ≠ .failed
  intent : send.intent = state.intentDigest
  room : state.transitions < maxStateTransitions
  moves : state.Repeats send next ∨ state.Migrates send next

theorem retry_steps {state next : ReliableState} {send : Resend}
    (h : state.retry send.route send.intent send.protectedPacket = .ok next) :
    state.Steps send next := by
  simp only [retry, Except.bind_eq_ok, reject_eq_ok, exists_const, Except.pure_eq, Except.ok.injEq,
    validateCounters_eq_ok, increment_eq_ok, not_or, not_and, not_not] at h
  obtain ⟨hcounted, ⟨hcompleted, hfailed, hintent, hpacket⟩, moved, hmoved, transitions,
    ⟨hroom, rfl⟩, rfl⟩ := h
  simp only [onRoute] at hmoved
  split_ifs at hmoved with hroute
  · simp only [Except.bind_eq_ok, increment_eq_ok, Except.pure_eq, Except.ok.injEq] at hmoved
    obtain ⟨retries, ⟨hretries, rfl⟩, rfl⟩ := hmoved
    refine ⟨hcounted, ⟨hcompleted, hfailed⟩, hintent, hroom, .inl ⟨hroute, hretries, ?_⟩⟩
    rw [hpacket hroute]
  · simp only [Except.bind_eq_ok, increment_eq_ok, Except.pure_eq, Except.ok.injEq] at hmoved
    obtain ⟨migrations, ⟨hmigrations, rfl⟩, rfl⟩ := hmoved
    exact ⟨hcounted, ⟨hcompleted, hfailed⟩, hintent, hroom, .inr ⟨hroute, hmigrations, rfl⟩⟩

theorem Steps.counted_next {state next : ReliableState} {send : Resend}
    (h : state.Steps send next) : next.Counted := by
  have htransitions := h.room
  obtain ⟨hretries, hmigrations, _⟩ := h.counted
  cases h.moves with
  | inl hrepeats =>
    obtain ⟨_, hroom, rfl⟩ := hrepeats
    exact ⟨hroom, hmigrations, htransitions⟩
  | inr hmigrates =>
    obtain ⟨_, hroom, rfl⟩ := hmigrates
    exact ⟨hretries, hroom, htransitions⟩

/-- A step keeps the route and counts a retry, or changes it and counts a migration. -/
theorem Steps.route_iff {state next : ReliableState} {send : Resend} (h : state.Steps send next) :
    (next.routeDigest = state.routeDigest ↔ next.retries = state.retries + 1) ∧
    (next.routeDigest = state.routeDigest ↔ next.migrations = state.migrations) ∧
    (next.routeDigest ≠ state.routeDigest ↔ next.migrations = state.migrations + 1) ∧
    (next.routeDigest ≠ state.routeDigest ↔ next.retries = state.retries) := by
  cases h.moves with
  | inl hrepeats =>
    obtain ⟨_, _, rfl⟩ := hrepeats
    simp
  | inr hmigrates =>
    obtain ⟨hmoved, _, rfl⟩ := hmigrates
    simp [hmoved]

theorem Steps.route {state next : ReliableState} {send : Resend} (h : state.Steps send next) :
    next.routeDigest = send.route := by
  cases h.moves with
  | inl hrepeats =>
    obtain ⟨hsame, _, rfl⟩ := hrepeats
    exact hsame.symm
  | inr hmigrates =>
    obtain ⟨_, _, rfl⟩ := hmigrates
    rfl

theorem Steps.packet {state next : ReliableState} {send : Resend} (h : state.Steps send next)
    (hpacket : next.protectedPacketDigest ≠ state.protectedPacketDigest) :
    next.routeDigest ≠ state.routeDigest := by
  cases h.moves with
  | inl hrepeats =>
    obtain ⟨_, _, rfl⟩ := hrepeats
    exact absurd rfl hpacket
  | inr hmigrates =>
    obtain ⟨hmoved, _, rfl⟩ := hmigrates
    exact hmoved

theorem Steps.kept {state next : ReliableState} {send : Resend} (h : state.Steps send next) :
    next.intentDigest = state.intentDigest ∧ next.outcome = state.outcome := by
  obtain ⟨_, _, rfl⟩ | ⟨_, _, rfl⟩ := h.moves <;> exact ⟨rfl, rfl⟩

theorem Steps.accounted {state next : ReliableState} {send : Resend} (h : state.Steps send next) :
    next.transitions = state.transitions + 1 ∧
      next.retries + next.migrations = state.retries + state.migrations + 1 := by
  obtain ⟨_, _, rfl⟩ | ⟨_, _, rfl⟩ := h.moves
  · exact ⟨rfl, Nat.add_right_comm _ 1 _⟩
  · exact ⟨rfl, rfl⟩

/-! ## Runs -/

/-- The states that successful retries lead to, one after another. -/
inductive Retries (first : ReliableState) : List Resend → ReliableState → Prop
  | start : Retries first [] first
  | retry {sends : List Resend} {state next : ReliableState} {send : Resend}
      (before : Retries first sends state)
      (retried : state.retry send.route send.intent send.protectedPacket = .ok next) :
      Retries first (sends ++ [send]) next

section Runs

variable {first last : ReliableState} {sends : List Resend}

theorem Retries.counted (h : Retries first sends last) (hfirst : first.Counted) :
    last.Counted := by
  induction h with
  | start => exact hfirst
  | retry _ retried _ => exact (retry_steps retried).counted_next

theorem Retries.kept (h : Retries first sends last) :
    last.intentDigest = first.intentDigest ∧ last.outcome = first.outcome := by
  induction h with
  | start => exact ⟨rfl, rfl⟩
  | retry _ retried ih =>
    obtain ⟨hintent, houtcome⟩ := (retry_steps retried).kept
    exact ⟨hintent.trans ih.1, houtcome.trans ih.2⟩

theorem Retries.transitions_eq (h : Retries first sends last) :
    last.transitions = first.transitions + sends.length := by
  induction h with
  | start => rfl
  | retry _ retried ih =>
    rw [(retry_steps retried).accounted.1, ih, List.length_append, List.length_singleton,
      Nat.add_assoc]

theorem Retries.retries_add (h : Retries first sends last) :
    last.retries + last.migrations = first.retries + first.migrations + sends.length := by
  induction h with
  | start => rfl
  | retry _ retried ih =>
    rw [(retry_steps retried).accounted.2, ih, List.length_append, List.length_singleton,
      Nat.add_assoc]

theorem Retries.monotone (h : Retries first sends last) :
    first.retries ≤ last.retries ∧ first.migrations ≤ last.migrations := by
  induction h with
  | start => exact ⟨le_rfl, le_rfl⟩
  | retry _ retried ih =>
    obtain ⟨_, _, rfl⟩ | ⟨_, _, rfl⟩ := (retry_steps retried).moves
    · exact ⟨Nat.le_succ_of_le ih.1, ih.2⟩
    · exact ⟨ih.1, Nat.le_succ_of_le ih.2⟩

end Runs

/-- In every run of successful retries the counters stay within their bounds and grow by its
steps, and each further step counts itself once, as a retry or as a migration. -/
theorem retransmission_exact {first last : ReliableState} {sends : List Resend}
    (hfirst : validateCounters first.retries first.migrations first.transitions = .ok ())
    (hrun : Retries first sends last) :
    (last.retries ≤ 32 ∧ last.migrations ≤ 16 ∧ last.transitions ≤ 256) ∧
    (first.retries ≤ last.retries ∧ first.migrations ≤ last.migrations ∧
      last.transitions - first.transitions =
        (last.retries - first.retries) + (last.migrations - first.migrations) ∧
      last.transitions = first.transitions + sends.length) ∧
    (last.intentDigest = first.intentDigest ∧ last.outcome = first.outcome) ∧
    ∀ (send : Resend) (next : ReliableState),
      last.retry send.route send.intent send.protectedPacket = .ok next →
      next.routeDigest = send.route ∧
      (next.retries = last.retries + 1 ↔ next.routeDigest = last.routeDigest) ∧
      (next.retries = last.retries ↔ next.routeDigest ≠ last.routeDigest) ∧
      (next.migrations = last.migrations + 1 ↔ next.routeDigest ≠ last.routeDigest) ∧
      (next.migrations = last.migrations ↔ next.routeDigest = last.routeDigest) ∧
      (next.protectedPacketDigest ≠ last.protectedPacketDigest →
        next.routeDigest ≠ last.routeDigest) ∧
      last.outcome ≠ .effectCompleted ∧ last.outcome ≠ .failed := by
  obtain ⟨hretries, hmigrations, htransitions⟩ := hrun.counted (validateCounters_eq_ok.mp hfirst)
  obtain ⟨hmore, hfurther⟩ := hrun.monotone
  have hlength := hrun.transitions_eq
  have hadd := hrun.retries_add
  refine ⟨⟨hretries, hmigrations, htransitions⟩, ⟨hmore, hfurther, by omega, hlength⟩,
    hrun.kept, ?_⟩
  intro send next hnext
  have hsteps := retry_steps hnext
  obtain ⟨hrepeats, hstays, hmigrates, hkeeps⟩ := hsteps.route_iff
  exact ⟨hsteps.route, hrepeats.symm, hkeeps.symm, hmigrates.symm, hstays.symm, hsteps.packet,
    hsteps.unfinished⟩

/-- A retry, a migration and a retry. -/
def sampleState : ReliableState :=
  { intentDigest := .replicate 32 1, routeDigest := .replicate 32 2,
    protectedPacketDigest := .replicate 32 3, retries := 0, migrations := 0, transitions := 0,
    outcome := .pending }

def sampleSends : List Resend :=
  [⟨.replicate 32 2, .replicate 32 1, .replicate 32 3⟩,
    ⟨.replicate 32 4, .replicate 32 1, .replicate 32 5⟩]

theorem sampleRun : ∃ last, Retries sampleState sampleSends last :=
  ⟨_, .retry (.retry .start rfl) rfl⟩

theorem retransmission_of_two_sends : ∃ last, Retries sampleState sampleSends last ∧
    last.transitions = 2 := by
  obtain ⟨last, hlast⟩ := sampleRun
  obtain ⟨_, ⟨_, _, _, hlength⟩, _⟩ := retransmission_exact (by decide) hlast
  exact ⟨last, hlast, hlength⟩

end ReliableState

end LicoArc
