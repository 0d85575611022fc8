import LicoArc.Runs
import LicoArc.TableProvider

/-!
# The outcome of a commit

What the result of `commit_replacing_pending` says about the store, when other
writers may move it between the swap and the second load.
-/

namespace LicoArc

open Backend

section

variable {provider : Provider} {current : Snapshot} {next : EndpointState}
  {mutations : List KeyMutation} {pending : List PendingItem} {w w' : World}
  {result : Except Error Unit}

theorem commit_exchanges {trace : List (Program.Exchange interface World)}
    (hrun : Program.Executes World.Later (handles provider)
      (commitReplacingPending store current next mutations pending).run w trace (.done result) w') :
    (trace = [] ∧ ∃ stage, result = .error (.terminal .boundExceeded stage)) ∨
    ∃ (w₁ w₂ : World) (reply : Except Error Revision), w.Later w₁ ∧
      handles provider w₁ (.compareAndSwap current.revision ⟨next, mutations, pending⟩) reply w₂ ∧
      ((∃ revision, reply = .ok revision ∧ w₂.Later w' ∧
          trace = [⟨w₁, Request.compareAndSwap current.revision ⟨next, mutations, pending⟩,
          reply, w₂⟩] ∧
          result = reject (revision ≠ ⟨current.revision.value + 1⟩)
            (.retry .providerFailure .commit)) ∨
        ∃ (error : Error) (w₃ : World) (observed : Except Error Snapshot), reply = .error error ∧
          w₂.Later w₃ ∧ w₃.Later w' ∧ (∀ snapshot, observed = .ok snapshot →
          snapshot = w₃.durable) ∧
          trace = [⟨w₁, Request.compareAndSwap current.revision ⟨next, mutations, pending⟩,
          reply, w₂⟩, ⟨w₃, Request.load, observed, w₃⟩] ∧
          result = verdict current next pending ⟨current.revision.value + 1⟩ error observed) := by
  by_cases hbounds : ∃ successor commit, current.revision.successor = .ok successor ∧
      Commit.bounded next mutations pending maxEndpointKeyMutations 16 = .ok commit
  · obtain ⟨successor, commit, hsuccessor, hcommit⟩ := hbounds
    obtain ⟨_, rfl⟩ := Revision.successor_eq_ok.mp hsuccessor
    obtain ⟨_, _, _, _, rfl⟩ := Commit.bounded_eq_ok.mp hcommit
    rw [commitReplacingPending_run hsuccessor hcommit] at hrun
    generalize hdone : Program.done result = rest at hrun
    cases hrun with
    | wait later => cases hdone
    | @ask _ _ _ w₁ w₂ _ reply trace _ later handled goesOn =>
      refine .inr ⟨w₁, w₂, reply, later, handled, ?_⟩
      subst hdone
      cases reply with
      | ok revision =>
        cases goesOn with
        | wait later' => exact .inl ⟨revision, rfl, later', rfl, rfl⟩
      | error error =>
        generalize hdone : Program.done result = rest at goesOn
        cases goesOn with
        | wait later' => cases hdone
        | @ask _ _ _ w₃ w₄ _ observed trace _ later' handled' goesOn =>
          subst hdone
          cases goesOn with
          | wait later'' =>
            obtain ⟨rfl, hload⟩ := handled'
            exact .inr ⟨error, w₄, observed, rfl, later', later'', hload, rfl, rfl⟩
  · obtain ⟨stage, hrefused⟩ := commitReplacingPending_refused hbounds
    rw [hrefused] at hrun
    cases hrun with
    | wait later => exact .inl ⟨rfl, stage, rfl⟩

/-- A success has made the planned snapshot durable at the next revision; an error that must not
be retried has left the store and the keys alone. -/
theorem commit_outcome {trace : List (Program.Exchange interface World)}
    (hrun : Program.Executes World.Later (handles provider)
      (commitReplacingPending store current next mutations pending).run w trace (.done result) w') :
    (result = .ok () →
      (⟨⟨current.revision.value + 1⟩, next, pending⟩ : Snapshot) ∈ w'.snapshots.entries) ∧
    ∀ error, result = .error error → error.retryable = false →
      ∀ x ∈ trace, x.after = x.before := by
  rcases commit_exchanges hrun with ⟨rfl, stage, rfl⟩ | ⟨w₁, w₂, reply, hlater, hswap, h⟩
  · exact ⟨nofun, fun _ _ _ _ hx => nomatch hx⟩
  rcases h with ⟨revision, rfl, hlater', rfl, rfl⟩ |
    ⟨error, w₃, observed, rfl, hlater₃, hlater', hload, rfl, rfl⟩
  · constructor
    · intro hok
      have hrevision := reject_eq_ok.mp hok
      rw [not_not.mp hrevision] at hswap
      have hswapped := hswap.2 rfl
      apply hlater'.snapshots.mem
      rw [hswapped.advanced, World.advance_entries, ← hswapped.current]
      exact List.mem_cons_self
    · intro e he hterminal
      obtain ⟨_, rfl⟩ := reject_eq_error.mp he
      cases hterminal
  · cases observed with
    | error e =>
      refine ⟨nofun, fun e he hterminal => ?_⟩
      cases he
      cases hterminal
    | ok snapshot =>
      cases hload snapshot rfl
      constructor
      · intro hok
        apply hlater'.snapshots.mem
        rw [← reconcile_eq_ok.mp hok]
        exact w₃.snapshots.newest_mem
      · intro e he hterminal
        have hrevision := reconcile_terminal he hterminal
        have hsame : w₂ = w₁ := by
          rcases hswap.1 with hsame | hswapped
          · exact hsame
          · -- An applied swap would have moved the revision that the second load shows.
            have hgrown := hlater₃.snapshots.rank_le
            rw [hswapped.advanced] at hgrown
            have hold : w₃.durable.revision.value = w₁.durable.revision.value := by
              rw [hrevision, hswapped.current]
            change w₁.durable.revision.value + 1 ≤ w₃.durable.revision.value at hgrown
            omega
        intro x hx
        simp only [List.mem_cons, List.not_mem_nil, or_false] at hx
        rcases hx with rfl | rfl
        · exact hsame
        · rfl

/-- A swap that is applied but reports an error, seen by the second load. -/
theorem commit_outcome_reported_error :
    (⟨⟨1⟩, ⟨.deleted none⟩, []⟩ : Snapshot) ∈
      ((World.initial .initiator).advance ⟨.deleted none⟩ [] []).snapshots.entries := by
  have hcommit : Commit.bounded (⟨.deleted none⟩ : EndpointState) [] [] maxEndpointKeyMutations 16 =
      .ok ⟨⟨.deleted none⟩, [], []⟩ := Commit.bounded_eq_ok.mpr (by decide)
  have hplan : (commitReplacingPending store (World.initial .initiator).durable ⟨.deleted none⟩ []
      []).run = _ := commitReplacingPending_run rfl hcommit
  obtain ⟨trace, hrun⟩ : ∃ trace, Program.Executes World.Later (handles (tableProvider [] []))
      (commitReplacingPending store (World.initial .initiator).durable ⟨.deleted none⟩ [] []).run
      (World.initial .initiator) trace (.done (.ok ()))
      ((World.initial .initiator).advance ⟨.deleted none⟩ [] []) := by
    rw [hplan]
    have hswap : handles (tableProvider [] []) (World.initial .initiator)
        (.compareAndSwap ⟨0⟩ ⟨⟨.deleted none⟩, [], []⟩)
        (Except.error (Error.retry .providerFailure .commit) : Except Error Revision)
        ((World.initial .initiator).advance ⟨.deleted none⟩ [] []) :=
      ⟨.inr ⟨rfl, by decide, nofun, rfl⟩, nofun⟩
    have hload : handles (tableProvider [] [])
        ((World.initial .initiator).advance ⟨.deleted none⟩ [] []) .load
        (Except.ok ⟨⟨1⟩, ⟨.deleted none⟩, []⟩ : Except Error Snapshot)
        ((World.initial .initiator).advance ⟨.deleted none⟩ [] []) :=
      ⟨rfl, fun _ h => (Except.ok.inj h).symm⟩
    exact ⟨_, .ask (.refl _) hswap (.ask (.refl _) hload (.wait (.refl _)))⟩
  exact (commit_outcome hrun).1 rfl

end

end LicoArc
