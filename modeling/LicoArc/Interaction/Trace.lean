import LicoArc.Interaction.Threads

/-!
# Exchanges and the exchanges before them

A property of each exchange of a program that may look at the exchanges that
the program made before it.
-/

namespace LicoArc

namespace Program

variable {σ : Interface} {α β W : Type} {rely : W → W → Prop}
  {handles : W → (request : σ.Request) → σ.Reply request → W → Prop}
  {property : List (Exchange σ W) → Exchange σ W → Prop}

/-- Every exchange that a run may still make has the property, given the exchanges so far. -/
def Traces (rely : W → W → Prop)
    (handles : W → (request : σ.Request) → σ.Reply request → W → Prop)
    (property : List (Exchange σ W) → Exchange σ W → Prop) :
    Program σ α → List (Exchange σ W) → W → Prop
  | done _, _, _ => True
  | ask request next, past, w => ∀ w₁ reply w₂, rely w w₁ → handles w₁ request reply w₂ →
      property past ⟨w₁, request, reply, w₂⟩ ∧
        (next reply).Traces rely handles property (past ++ [⟨w₁, request, reply, w₂⟩]) w₂

theorem Traces.executes {p rest : Program σ α} {w w' : W} {past trace : List (Exchange σ W)}
    (h : p.Traces rely handles property past w) (hrun : Executes rely handles p w trace rest w')
    {earlier later : List (Exchange σ W)} {x : Exchange σ W}
    (htrace : trace = earlier ++ x :: later) : property (past ++ earlier) x := by
  induction hrun generalizing past earlier with
  | wait => exact absurd htrace (by simp)
  | ask hlater handled _ ih =>
    obtain ⟨hfirst, hrest⟩ := h _ _ _ hlater handled
    cases earlier with
    | nil =>
      cases htrace
      rwa [List.append_nil]
    | cons first earlier =>
      cases htrace
      rw [List.append_cons]
      exact ih hrest rfl

theorem Executes.handled {p rest : Program σ α} {w w' : W} {trace : List (Exchange σ W)}
    (hrun : Executes rely handles p w trace rest w') :
    ∀ x ∈ trace, handles x.before x.request x.reply x.after := by
  induction hrun with
  | wait => exact fun _ hx => nomatch hx
  | ask _ handled _ ih =>
    intro x hx
    rcases List.mem_cons.mp hx with rfl | hx
    · exact handled
    · exact ih x hx

theorem Executes.only {quiet : σ.Request → Prop} {p rest : Program σ α} {w w' : W}
    {trace : List (Exchange σ W)} (honly : p.Only quiet)
    (hrun : Executes rely handles p w trace rest w') : ∀ x ∈ trace, quiet x.request := by
  induction hrun with
  | wait => exact fun _ hx => nomatch hx
  | ask _ _ _ ih =>
    intro x hx
    rcases List.mem_cons.mp hx with rfl | hx
    · exact honly.1
    · exact ih (honly.2 _) x hx

/-- A finished run returns what its replies determine. -/
theorem Executes.yields {replies : (request : σ.Request) → σ.Reply request → Prop}
    {p : Program σ α} {a : α} {w w' : W} {trace : List (Exchange σ W)}
    (hrun : Executes rely handles p w trace (.done a) w')
    (hreplies : ∀ x ∈ trace, replies x.request x.reply) : p.Yields replies a := by
  generalize hrest : Program.done a = rest at hrun
  induction hrun with
  | wait =>
    subst hrest
    rfl
  | ask _ _ _ ih =>
    rw [List.forall_mem_cons] at hreplies
    exact ⟨_, hreplies.1, ih hreplies.2 hrest⟩

theorem Traces.bind (refl : ∀ a, rely a a) {p : Program σ β} {f : β → Program σ α}
    {past : List (Exchange σ W)} {w : W} (hp : p.Traces rely handles property past w)
    (hf : ∀ b trace w', Executes rely handles p w trace (.done b) w' →
      (f b).Traces rely handles property (past ++ trace) w') :
    (p >>= f).Traces rely handles property past w := by
  induction p generalizing past w with
  | done b =>
    have hdone := hf b [] w (.wait (refl w))
    rwa [List.append_nil] at hdone
  | ask request next ih =>
    intro w₁ reply w₂ hlater handled
    obtain ⟨hfirst, hnext⟩ := hp _ _ _ hlater handled
    refine ⟨hfirst, ih reply hnext fun b trace w' hrun => ?_⟩
    rw [← List.append_cons]
    exact hf b _ w' (.ask hlater handled hrun)

theorem Executes.of_perform {request : σ.Request} {reply : σ.Reply request} {w w' : W}
    {trace : List (Exchange σ W)}
    (hrun : Executes rely handles (perform request) w trace (.done reply) w') :
    ∃ w₁ w₂, rely w w₁ ∧ handles w₁ request reply w₂ ∧ rely w₂ w' ∧
      trace = [⟨w₁, request, reply, w₂⟩] := by
  generalize hrest : Program.done reply = rest at hrun
  cases hrun with
  | wait => cases hrest
  | ask later handled goesOn =>
    subst hrest
    cases goesOn with
    | wait later' => exact ⟨_, _, later, handled, later', rfl⟩

theorem Executes.of_bind (refl : ∀ a, rely a a) {p : Program σ β} {f : β → Program σ α} {a : α}
    {w w' : W} {trace : List (Exchange σ W)}
    (hrun : Executes rely handles (p >>= f) w trace (.done a) w') :
    ∃ b first w₁ second, Executes rely handles p w first (.done b) w₁ ∧
      Executes rely handles (f b) w₁ second (.done a) w' ∧ trace = first ++ second := by
  induction p generalizing w trace with
  | done b => exact ⟨b, [], w, trace, .wait (refl w), hrun, rfl⟩
  | ask request next ih =>
    rw [ask_bind] at hrun
    generalize hrest : Program.done a = rest at hrun
    cases hrun with
    | wait => cases hrest
    | ask later handled goesOn =>
      subst hrest
      obtain ⟨b, first, w₁, second, hfirst, hsecond, rfl⟩ := ih _ goesOn
      exact ⟨b, _, w₁, second, .ask later handled hfirst, hsecond, rfl⟩

theorem Executes.of_done {a b : α} {w w' : W} {trace : List (Exchange σ W)}
    (hrun : Executes rely handles (.done b) w trace (.done a) w') :
    a = b ∧ trace = [] ∧ rely w w' := by
  cases hrun with
  | wait later => exact ⟨rfl, rfl, later⟩

section

variable {ε : Type} {past : List (Exchange σ W)} {w : W}

/-- A successful run of two fallible parts is a successful run of each. -/
theorem executes_bind_ok (refl : ∀ a, rely a a) {x : ExceptT ε (Program σ) β}
    {f : β → ExceptT ε (Program σ) α} {a : α} {w' : W} {trace : List (Exchange σ W)}
    (hrun : Executes rely handles (x >>= f).run w trace (.done (.ok a)) w') :
    ∃ b first w₁ second, Executes rely handles x.run w first (.done (.ok b)) w₁ ∧
      Executes rely handles (f b).run w₁ second (.done (.ok a)) w' ∧ trace = first ++ second := by
  obtain ⟨result, first, w₁, second, hfirst, hsecond, rfl⟩ := Executes.of_bind refl hrun
  cases result with
  | ok b => exact ⟨b, first, w₁, second, hfirst, hsecond, rfl⟩
  | error e => cases (Executes.of_done hsecond).1

theorem executes_lift_ok {x : Except ε α} {a : α} {w' : W} {trace : List (Exchange σ W)}
    (hrun : Executes rely handles (lift x : ExceptT ε (Program σ) α).run w trace
    (.done (.ok a)) w') :
    x = .ok a ∧ trace = [] ∧ rely w w' := by
  obtain ⟨heq, htrace, hlater⟩ := Executes.of_done hrun
  exact ⟨heq.symm, htrace, hlater⟩

theorem traces_of_only {quiet : σ.Request → Prop} {p : Program σ α} (honly : p.Only quiet)
    (hproperty : ∀ past x, quiet x.request → property past x) :
    p.Traces rely handles property past w := by
  induction p generalizing past w with
  | done a => trivial
  | ask request next ih =>
    intro w₁ reply w₂ _ _
    exact ⟨hproperty _ _ honly.1, ih reply (honly.2 reply)⟩

theorem traces_bind (refl : ∀ a, rely a a) {x : ExceptT ε (Program σ) β}
    {f : β → ExceptT ε (Program σ) α} (hx : x.run.Traces rely handles property past w)
    (hf : ∀ b trace w', Executes rely handles x.run w trace (.done (.ok b)) w' →
      (f b).run.Traces rely handles property (past ++ trace) w') :
    (x >>= f).run.Traces rely handles property past w := by
  refine Traces.bind refl hx fun result trace w' hrun => ?_
  cases result with
  | ok b => exact hf b trace w' hrun
  | error e => trivial

end

end Program

end LicoArc
