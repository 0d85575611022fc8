import Mathlib

/-!
# Results of fallible and of nondeterministic computations

`Outcomes m` reads a computation of a monad as the set of results that it may
return. It is what a proof about code over an arbitrary monad needs: the
results of a sequence are the results of its second part after those of its
first. The identity monad has one result, an interactive program has one for
each admissible sequence of replies.
-/

namespace LicoArc

section Except

variable {ε α β : Type}

/-- `if condition { return Err(error); }`. -/
def reject (condition : Prop) [Decidable condition] (error : ε) : Except ε Unit :=
  if condition then .error error else .ok ()

@[simp] theorem reject_eq_ok {condition : Prop} [Decidable condition] {error : ε} {u : Unit} :
    reject condition error = .ok u ↔ ¬condition := by
  unfold reject
  split <;> simp_all

@[simp] theorem reject_eq_error {condition : Prop} [Decidable condition] {error e : ε} :
    reject condition error = .error e ↔ condition ∧ e = error := by
  unfold reject
  split <;> simp_all [eq_comm]

theorem reject_of_not {condition : Prop} [Decidable condition] (error : ε) (h : ¬condition) :
    reject condition error = .ok () := by
  rw [reject, if_neg h]

/-- `option.ok_or(error)`. -/
def okOr {ε α : Type} (error : ε) : Option α → Except ε α
  | some a => .ok a
  | none => .error error

@[simp] theorem okOr_eq_ok {error : ε} {x : Option α} {a : α} :
    okOr error x = .ok a ↔ x = some a := by
  cases x <;> simp [okOr]

@[simp] theorem Except.ok_bind (a : α) (f : α → Except ε β) : (Except.ok a >>= f) = f a := rfl

@[simp] theorem Except.error_bind (e : ε) (f : α → Except ε β) :
    ((Except.error e : Except ε α) >>= f) = .error e := rfl

@[simp] theorem Except.pure_eq (a : α) : (pure a : Except ε α) = .ok a := rfl

theorem Except.bind_eq_ok {x : Except ε α} {f : α → Except ε β} {b : β} :
    (x >>= f) = .ok b ↔ ∃ a, x = .ok a ∧ f a = .ok b := by
  cases x <;> simp

theorem Except.bind_eq_error {x : Except ε α} {f : α → Except ε β} {e : ε} :
    (x >>= f) = .error e ↔ x = .error e ∨ ∃ a, x = .ok a ∧ f a = .error e := by
  cases x <;> simp

@[simp] theorem Except.mapError_eq_ok {ε' : Type} {f : ε → ε'} {x : Except ε α} {a : α} :
    x.mapError f = .ok a ↔ x = .ok a := by
  cases x <;> simp [Except.mapError]

def Except.check (x : Except ε α) (property : α → Prop) [DecidablePred property] : Bool :=
  match x with
  | .ok a => decide (property a)
  | .error _ => false

theorem Except.exists_of_check {x : Except ε α} {property : α → Prop} [DecidablePred property]
    (h : Except.check x property = true) : ∃ a, x = .ok a ∧ property a := by
  cases x with
  | ok a => exact ⟨a, rfl, of_decide_eq_true h⟩
  | error e => cases h

end Except

structure Outcomes (m : Type → Type) [Monad m] where
  may : {α : Type} → m α → α → Prop
  may_pure {α : Type} (a b : α) : may (pure a) b ↔ b = a
  may_bind {α β : Type} (x : m α) (f : α → m β) (b : β) :
    may (x >>= f) b ↔ ∃ a, may x a ∧ may (f a) b

namespace Outcomes

def value : Outcomes Id where
  may x a := a = x.run
  may_pure _ _ := Iff.rfl
  may_bind x f b := by
    constructor
    · intro h
      exact ⟨x.run, rfl, h⟩
    · rintro ⟨a, rfl, h⟩
      exact h

variable {m : Type → Type} [Monad m] (o : Outcomes m) {ε α β : Type}

/-- The computation may succeed with the value. -/
def mayOk (x : ExceptT ε m α) (a : α) : Prop := o.may x.run (.ok a)

def mayFail (x : ExceptT ε m α) (e : ε) : Prop := o.may x.run (.error e)

@[simp] theorem mayOk_pure (a b : α) : o.mayOk (pure a : ExceptT ε m α) b ↔ b = a := by
  change o.may (pure (Except.ok a)) _ ↔ _
  rw [o.may_pure, Except.ok.injEq]

@[simp] theorem mayFail_pure (a : α) (e : ε) : ¬o.mayFail (pure a : ExceptT ε m α) e := by
  change ¬o.may (pure (Except.ok a)) _
  rw [o.may_pure]
  exact nofun

@[simp] theorem mayOk_throw (e : ε) (a : α) : ¬o.mayOk (throw e : ExceptT ε m α) a := by
  change ¬o.may (pure (Except.error e)) _
  rw [o.may_pure]
  exact nofun

@[simp] theorem mayOk_bind (x : ExceptT ε m α) (f : α → ExceptT ε m β) (b : β) :
    o.mayOk (x >>= f) b ↔ ∃ a, o.mayOk x a ∧ o.mayOk (f a) b := by
  change o.may (x.run >>= ExceptT.bindCont f) (.ok b) ↔ _
  rw [o.may_bind]
  constructor
  · rintro ⟨r, hx, hf⟩
    cases r with
    | ok a => exact ⟨a, hx, hf⟩
    | error e =>
      change o.may (pure (Except.error e)) _ at hf
      rw [o.may_pure] at hf
      cases hf
  · rintro ⟨a, hx, hf⟩
    exact ⟨.ok a, hx, hf⟩

theorem mayFail_bind (x : ExceptT ε m α) (f : α → ExceptT ε m β) (e : ε) :
    o.mayFail (x >>= f) e ↔ o.mayFail x e ∨ ∃ a, o.mayOk x a ∧ o.mayFail (f a) e := by
  change o.may (x.run >>= ExceptT.bindCont f) (.error e) ↔ _
  rw [o.may_bind]
  constructor
  · rintro ⟨r, hx, hf⟩
    cases r with
    | ok a => exact .inr ⟨a, hx, hf⟩
    | error e' =>
      change o.may (pure (Except.error e')) _ at hf
      rw [o.may_pure] at hf
      cases hf
      exact .inl hx
  · rintro (hx | ⟨a, hx, hf⟩)
    · exact ⟨.error e, hx, (o.may_pure _ _).mpr rfl⟩
    · exact ⟨.ok a, hx, hf⟩

theorem mayOk_value {x : ExceptT ε Id α} {a : α} : value.mayOk x a ↔ x.run = .ok a := eq_comm

end Outcomes

def lift {m : Type → Type} [Monad m] {ε α : Type} (x : Except ε α) : ExceptT ε m α :=
  ExceptT.mk (pure x)

/-- `operation.map_err(|_| error)?`, with the error rewritten. -/
def attempt {m : Type → Type} [Monad m] {ε α : Type} (x : m (Except ε α)) (adapt : ε → ε) :
    ExceptT ε m α :=
  ExceptT.mk (do return (← x).mapError adapt)

namespace Outcomes

variable {m : Type → Type} [Monad m] (o : Outcomes m) {ε α : Type}

@[simp] theorem mayOk_lift (x : Except ε α) (a : α) :
    o.mayOk (lift x : ExceptT ε m α) a ↔ x = .ok a := by
  change o.may (pure x) _ ↔ _
  rw [o.may_pure, eq_comm]

@[simp] theorem mayFail_lift (x : Except ε α) (e : ε) :
    o.mayFail (lift x : ExceptT ε m α) e ↔ x = .error e := by
  change o.may (pure x) _ ↔ _
  rw [o.may_pure, eq_comm]

@[simp] theorem mayOk_attempt (x : m (Except ε α)) (adapt : ε → ε) (a : α) :
    o.mayOk (attempt x adapt) a ↔ o.may x (.ok a) := by
  change o.may (x >>= fun r => pure (r.mapError adapt)) _ ↔ _
  rw [o.may_bind]
  constructor
  · rintro ⟨r, hx, hr⟩
    rw [o.may_pure] at hr
    rwa [Except.mapError_eq_ok.mp hr.symm] at hx
  · intro hx
    exact ⟨_, hx, (o.may_pure _ _).mpr rfl⟩

theorem mayFail_attempt (x : m (Except ε α)) (adapt : ε → ε) (e : ε) :
    o.mayFail (attempt x adapt) e ↔ ∃ e', o.may x (.error e') ∧ e = adapt e' := by
  change o.may (x >>= fun r => pure (r.mapError adapt)) _ ↔ _
  rw [o.may_bind]
  constructor
  · rintro ⟨r, hx, hr⟩
    rw [o.may_pure] at hr
    cases r with
    | ok a => cases hr
    | error e' => exact ⟨e', hx, Except.error.inj hr⟩
  · rintro ⟨e', hx, rfl⟩
    exact ⟨.error e', hx, (o.may_pure _ _).mpr rfl⟩

end Outcomes

end LicoArc
