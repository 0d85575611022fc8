import LicoArc.Interaction.Outcome

/-!
# Interactive programs

A program is done with a value or asks its surroundings and goes on with the
reply. `Executes` runs a program in a world that others may change between any
two of its exchanges, `Meets` is the weakest precondition of such runs: what
must hold of a world so that every exchange is permitted and the final value
satisfies a postcondition, whatever the others do within `rely`.
-/

namespace LicoArc

structure Interface where
  Request : Type
  Reply : Request → Type

inductive Program (σ : Interface) (α : Type) : Type
  | done (value : α)
  | ask (request : σ.Request) (next : σ.Reply request → Program σ α)

namespace Program

variable {σ : Interface} {α β W : Type}

protected def bind : Program σ α → (α → Program σ β) → Program σ β
  | done a, f => f a
  | ask request next, f => ask request fun reply => (next reply).bind f

instance : Monad (Program σ) where
  pure := done
  bind := Program.bind

@[simp] theorem pure_eq_done (a : α) : (pure a : Program σ α) = done a := rfl

@[simp] theorem done_bind (a : α) (f : α → Program σ β) : (done a >>= f) = f a := rfl

@[simp] theorem ask_bind (request : σ.Request) (next : σ.Reply request → Program σ α)
    (f : α → Program σ β) :
    (ask request next >>= f) = ask request fun reply => next reply >>= f := rfl

def perform (request : σ.Request) : Program σ (σ.Reply request) := ask request done

/-! ## Results -/

/-- The results of a program whose exchanges all satisfy the relation. -/
def Yields (replies : (request : σ.Request) → σ.Reply request → Prop) : Program σ α → α → Prop
  | done a, b => b = a
  | ask request next, b => ∃ reply, replies request reply ∧ (next reply).Yields replies b

theorem yields_bind (replies : (request : σ.Request) → σ.Reply request → Prop)
    (p : Program σ α) (f : α → Program σ β) (b : β) :
    (p >>= f).Yields replies b ↔ ∃ a, p.Yields replies a ∧ (f a).Yields replies b := by
  induction p with
  | done a => simp [Yields]
  | ask request next ih =>
    simp only [ask_bind, Yields, ih]
    constructor
    · rintro ⟨reply, hreply, a, ha, hb⟩
      exact ⟨a, ⟨reply, hreply, ha⟩, hb⟩
    · rintro ⟨a, ⟨reply, hreply, ha⟩, hb⟩
      exact ⟨reply, hreply, a, ha, hb⟩

def outcomes (replies : (request : σ.Request) → σ.Reply request → Prop) : Outcomes (Program σ) where
  may := Yields replies
  may_pure _ _ := Iff.rfl
  may_bind := yields_bind replies

@[simp] theorem outcomes_perform (replies : (request : σ.Request) → σ.Reply request → Prop)
    (request : σ.Request) (reply : σ.Reply request) :
    (outcomes replies).may (perform request) reply ↔ replies request reply := by
  change (∃ r, replies request r ∧ reply = r) ↔ _
  simp

theorem Yields.mono {replies replies' : (request : σ.Request) → σ.Reply request → Prop}
    (h : ∀ request reply, replies request reply → replies' request reply) {p : Program σ α} {a : α}
    (hp : p.Yields replies a) : p.Yields replies' a := by
  induction p with
  | done b => exact hp
  | ask request next ih =>
    obtain ⟨reply, hreply, hnext⟩ := hp
    exact ⟨reply, h request reply hreply, ih reply hnext⟩

/-- Every request that the program may make satisfies the property. -/
def Only (property : σ.Request → Prop) : Program σ α → Prop
  | done _ => True
  | ask request next => property request ∧ ∀ reply, (next reply).Only property

theorem Only.bind {property : σ.Request → Prop} {p : Program σ α} {f : α → Program σ β}
    (hp : p.Only property) (hf : ∀ a, (f a).Only property) : (p >>= f).Only property := by
  induction p with
  | done a => exact hf a
  | ask request next ih => exact ⟨hp.1, fun reply => ih reply (hp.2 reply)⟩

/-! ## Evaluation -/

def run (handler : (request : σ.Request) → W → σ.Reply request × W) : Program σ α → W → α × W
  | done a, w => (a, w)
  | ask request next, w => (next (handler request w).1).run handler (handler request w).2

theorem run_bind (handler : (request : σ.Request) → W → σ.Reply request × W) (p : Program σ α)
    (f : α → Program σ β) (w : W) :
    (p >>= f).run handler w = (f (p.run handler w).1).run handler (p.run handler w).2 := by
  induction p generalizing w with
  | done a => rfl
  | ask request next ih => exact ih _ _

/-- A program that only makes requests which leave the world alone evaluates to the result that its
replies determine. -/
theorem run_eq_of_yields {handler : (request : σ.Request) → W → σ.Reply request × W}
    {replies : (request : σ.Request) → σ.Reply request → Prop} {quiet : σ.Request → Prop} {w : W}
    (hquiet : ∀ request, quiet request → (handler request w).2 = w ∧
      ∀ reply, replies request reply → reply = (handler request w).1) {p : Program σ α} {a : α}
    (honly : p.Only quiet) (hp : p.Yields replies a) : p.run handler w = (a, w) := by
  induction p with
  | done b => exact congrArg (·, w) hp.symm
  | ask request next ih =>
    obtain ⟨reply, hreply, hnext⟩ := hp
    obtain ⟨hworld, hvalue⟩ := hquiet request honly.1
    rw [run, hworld, ← hvalue reply hreply]
    exact ih reply (honly.2 reply) hnext

/-! ## Runs among others -/

structure Exchange (σ : Interface) (W : Type) where
  before : W
  request : σ.Request
  reply : σ.Reply request
  after : W

/-- A part of a run: the program from which it starts, its exchanges and the program that is left.
Before each exchange and at the end the world may change within `rely`. -/
inductive Executes (rely : W → W → Prop)
    (handles : W → (request : σ.Request) → σ.Reply request → W → Prop) :
    Program σ α → W → List (Exchange σ W) → Program σ α → W → Prop
  | wait {p : Program σ α} {w w' : W} (later : rely w w') : Executes rely handles p w [] p w'
  | ask {request : σ.Request} {next : σ.Reply request → Program σ α} {w w₁ w₂ w' : W}
      {reply : σ.Reply request} {trace : List (Exchange σ W)} {rest : Program σ α}
      (later : rely w w₁) (handled : handles w₁ request reply w₂)
      (goesOn : Executes rely handles (next reply) w₂ trace rest w') :
      Executes rely handles (ask request next) w (⟨w₁, request, reply, w₂⟩ :: trace) rest w'

/-- What must hold of a world for every run of the program to be permitted and to end well. -/
def Meets (rely : W → W → Prop)
    (handles : W → (request : σ.Request) → σ.Reply request → W → Prop)
    (permit : σ.Request → W → Prop) (post : α → W → Prop) : Program σ α → W → Prop
  | done a, w => ∀ w', rely w w' → post a w'
  | ask request next, w => ∀ w', rely w w' → permit request w' ∧
      ∀ reply w'', handles w' request reply w'' →
        (next reply).Meets rely handles permit post w''

section

variable {rely : W → W → Prop}
  {handles : W → (request : σ.Request) → σ.Reply request → W → Prop}
  {permit : σ.Request → W → Prop} {post : α → W → Prop}

theorem Executes.later (trans : ∀ a b c, rely a b → rely b c → rely a c)
    {p rest : Program σ α} {w w' w'' : W} {trace : List (Exchange σ W)}
    (h : Executes rely handles p w trace rest w') (hlater : rely w' w'') :
    Executes rely handles p w trace rest w'' := by
  induction h with
  | wait later => exact .wait (trans _ _ _ later hlater)
  | ask later handled _ ih => exact .ask later handled (ih hlater)

theorem Executes.exchange (refl : ∀ a, rely a a) {p : Program σ α} {request : σ.Request}
    {next : σ.Reply request → Program σ α} {w w' w'' : W} {trace : List (Exchange σ W)}
    {reply : σ.Reply request} (h : Executes rely handles p w trace (.ask request next) w')
    (hhandled : handles w' request reply w'') :
    Executes rely handles p w (trace ++ [⟨w', request, reply, w''⟩]) (next reply) w'' := by
  generalize hrest : Program.ask request next = rest at h
  induction h with
  | wait later =>
    subst hrest
    exact .ask later hhandled (.wait (refl _))
  | ask later handled _ ih => exact .ask later handled (ih hhandled hrest)

theorem Meets.later (trans : ∀ a b c, rely a b → rely b c → rely a c) {p : Program σ α}
    {w w' : W} (h : p.Meets rely handles permit post w) (hlater : rely w w') :
    p.Meets rely handles permit post w' := by
  cases p with
  | done a => exact fun w'' hw'' => h w'' (trans _ _ _ hlater hw'')
  | ask request next => exact fun w'' hw'' => h w'' (trans _ _ _ hlater hw'')

theorem Meets.imp {post' : α → W → Prop} (himp : ∀ a w, post a w → post' a w) {p : Program σ α}
    {w : W} (h : p.Meets rely handles permit post w) : p.Meets rely handles permit post' w := by
  induction p generalizing w with
  | done a => exact fun w' hw' => himp a w' (h w' hw')
  | ask request next ih =>
    intro w' hw'
    obtain ⟨hpermit, hnext⟩ := h w' hw'
    exact ⟨hpermit, fun reply w'' hhandled => ih reply (hnext reply w'' hhandled)⟩

theorem Meets.of_only {property : σ.Request → Prop} {p : Program σ α} {w : W}
    (honly : p.Only property) (hpermit : ∀ request w, property request → permit request w)
    (hpost : ∀ a w, post a w) : p.Meets rely handles permit post w := by
  induction p generalizing w with
  | done a => exact fun w' _ => hpost a w'
  | ask request next ih =>
    intro w' _
    exact ⟨hpermit request w' honly.1, fun reply w'' _ => ih reply (honly.2 reply)⟩

theorem Meets.bind (refl : ∀ a, rely a a) {p : Program σ β} {f : β → Program σ α} {w : W}
    (h : p.Meets rely handles permit (fun b => (f b).Meets rely handles permit post) w) :
    (p >>= f).Meets rely handles permit post w := by
  induction p generalizing w with
  | done b => exact h w (refl w)
  | ask request next ih =>
    intro w' hw'
    obtain ⟨hpermit, hnext⟩ := h w' hw'
    exact ⟨hpermit, fun reply w'' hhandled => ih reply (hnext reply w'' hhandled)⟩

/-- Requests that leave the world alone and whose replies stay true of it. -/
structure Quiet (rely : W → W → Prop)
    (handles : W → (request : σ.Request) → σ.Reply request → W → Prop)
    (permit : σ.Request → W → Prop) (quiet : σ.Request → Prop)
    (reads : W → (request : σ.Request) → σ.Reply request → Prop) : Prop where
  permitted {request : σ.Request} {w : W} : quiet request → permit request w
  stays {request : σ.Request} {reply : σ.Reply request} {w w' : W} : quiet request →
    handles w request reply w' → w' = w ∧ reads w request reply
  lasts {request : σ.Request} {reply : σ.Reply request} {w w' : W} : rely w w' →
    reads w request reply → reads w' request reply

theorem Meets.of_quiet {quiet : σ.Request → Prop}
    {reads : W → (request : σ.Request) → σ.Reply request → Prop}
    (hquiet : Quiet rely handles permit quiet reads)
    (trans : ∀ a b c, rely a b → rely b c → rely a c) {p : Program σ α} {w : W}
    (honly : p.Only quiet) (hpost : ∀ a w', rely w w' → p.Yields (reads w') a → post a w') :
    p.Meets rely handles permit post w := by
  induction p generalizing w with
  | done a => exact fun w' hw' => hpost a w' hw' rfl
  | ask request next ih =>
    intro w' hw'
    refine ⟨hquiet.permitted honly.1, fun reply w'' hhandled => ?_⟩
    obtain ⟨rfl, hreads⟩ := hquiet.stays honly.1 hhandled
    refine ih reply (honly.2 reply) fun a w₂ hw₂ hyields => hpost a w₂ (trans _ _ _ hw' hw₂) ?_
    exact ⟨reply, hquiet.lasts hw₂ hreads, hyields⟩

/-- What is met at the start is met by what is left, and every exchange was permitted. -/
theorem Meets.executes (trans : ∀ a b c, rely a b → rely b c → rely a c) {p rest : Program σ α}
    {w w' : W} {trace : List (Exchange σ W)} (h : p.Meets rely handles permit post w)
    (hrun : Executes rely handles p w trace rest w') :
    rest.Meets rely handles permit post w' ∧ ∀ x ∈ trace, permit x.request x.before := by
  induction hrun with
  | wait later => exact ⟨h.later trans later, fun _ hx => nomatch hx⟩
  | ask later handled _ ih =>
    obtain ⟨hpermit, hnext⟩ := h _ later
    obtain ⟨hrest, htrace⟩ := ih (hnext _ _ handled)
    refine ⟨hrest, fun x hx => ?_⟩
    rcases List.mem_cons.mp hx with rfl | hx
    · exact hpermit
    · exact htrace x hx

theorem Meets.result (refl : ∀ a, rely a a) (trans : ∀ a b c, rely a b → rely b c → rely a c)
    {p : Program σ α} {w w' : W} {trace : List (Exchange σ W)} {a : α}
    (h : p.Meets rely handles permit post w)
    (hrun : Executes rely handles p w trace (.done a) w') : post a w' :=
  (h.executes trans hrun).1 w' (refl w')

end

end Program

end LicoArc
