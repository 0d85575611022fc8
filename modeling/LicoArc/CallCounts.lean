import LicoArc.Interaction.Outcome

/-!
# Counting calls

A counted computation carries a number that each call of interest raises. A
bound on the calls comes with the proof that the count can be erased: the
counted computation has the results of the plain one.
-/

namespace LicoArc

section

variable {m : Type → Type} [Monad m] {ε α β : Type}

def tick : ExceptT ε (StateT Nat m) Unit := ExceptT.mk fun count => pure (.ok (), count + 1)

def uncounted (x : ExceptT ε m α) : ExceptT ε (StateT Nat m) α :=
  ExceptT.mk fun count => do
    let result ← x.run
    return (result, count)

def countedFrom (x : ExceptT ε (StateT Nat m) α) (start : Nat) : m (Except ε α × Nat) :=
  x.run.run start

variable (o : Outcomes m)

/-- The counted computation has the results of the plain one, and raises the count by at most the
bound. -/
structure Counts (bound : Nat) (counted : ExceptT ε (StateT Nat m) α) (plain : ExceptT ε m α) :
    Prop where
  erase (start : Nat) (r : Except ε α) :
    (∃ total, o.may (countedFrom counted start) (r, total)) ↔ o.may plain.run r
  le {start total : Nat} {r : Except ε α} (h : o.may (countedFrom counted start) (r, total)) :
    total ≤ start + bound

theorem may_countedFrom_bind {x : ExceptT ε (StateT Nat m) α}
    {f : α → ExceptT ε (StateT Nat m) β} {start total : Nat} {r : Except ε β} :
    o.may (countedFrom (x >>= f) start) (r, total) ↔
      (∃ a middle, o.may (countedFrom x start) (.ok a, middle) ∧
        o.may (countedFrom (f a) middle) (r, total)) ∨
      ∃ e, r = .error e ∧ o.may (countedFrom x start) (.error e, total) := by
  change o.may (countedFrom x start >>= fun result => ExceptT.bindCont f result.1 result.2) _ ↔ _
  rw [o.may_bind]
  constructor
  · intro h
    obtain ⟨⟨result, middle⟩, hx, hf⟩ := h
    cases result with
    | ok a => exact .inl ⟨a, middle, hx, hf⟩
    | error e =>
      have hpure := (o.may_pure _ _).mp hf
      cases hpure
      exact .inr ⟨e, rfl, hx⟩
  · intro h
    rcases h with ⟨a, middle, hx, hf⟩ | ⟨e, rfl, hx⟩
    · exact ⟨(.ok a, middle), hx, hf⟩
    · exact ⟨(.error e, total), hx, (o.may_pure _ _).mpr rfl⟩

theorem may_run_bind {x : ExceptT ε m α} {f : α → ExceptT ε m β} {r : Except ε β} :
    o.may (x >>= f).run r ↔
      (∃ a, o.mayOk x a ∧ o.may (f a).run r) ∨ ∃ e, r = .error e ∧ o.mayFail x e := by
  cases r with
  | ok b =>
    have h := o.mayOk_bind x f b
    simpa [Outcomes.mayOk] using h
  | error e =>
    have h := o.mayFail_bind x f e
    rw [Outcomes.mayFail] at h
    rw [h, or_comm]
    simp [Outcomes.mayFail]

namespace Counts

variable {o} {bound other : Nat}

theorem mono {counted : ExceptT ε (StateT Nat m) α} {plain : ExceptT ε m α}
    (h : Counts o bound counted plain) (hle : bound ≤ other) : Counts o other counted plain where
  erase := h.erase
  le hmay := (h.le hmay).trans (by omega)

theorem of_uncounted (x : ExceptT ε m α) : Counts o 0 (uncounted x) x := by
  have hmay : ∀ {start total : Nat} {r : Except ε α},
      o.may (countedFrom (uncounted x) start) (r, total) ↔ o.may x.run r ∧ total = start := by
    intro start total r
    change o.may (x.run >>= fun result => pure (result, start)) _ ↔ _
    rw [o.may_bind]
    constructor
    · intro h
      obtain ⟨result, hx, hpure⟩ := h
      cases (o.may_pure _ _).mp hpure
      exact ⟨hx, rfl⟩
    · intro h
      obtain ⟨hx, rfl⟩ := h
      exact ⟨r, hx, (o.may_pure _ _).mpr rfl⟩
  constructor
  · intro start r
    simp only [hmay, exists_and_left, exists_eq, and_true]
  · intro start total r h
    exact (hmay.mp h).2.le

theorem pure (a : α) : Counts o 0 (Pure.pure a : ExceptT ε (StateT Nat m) α) (Pure.pure a) := by
  have hmay : ∀ {start total : Nat} {r : Except ε α},
      o.may (countedFrom (Pure.pure a) start) (r, total) ↔ (r, total) = (.ok a, start) := by
    intro start total r
    exact o.may_pure _ _
  constructor
  · intro start r
    simp only [hmay, Prod.mk.injEq, exists_and_left, exists_eq, and_true]
    exact (o.may_pure _ _).symm
  · intro start total r h
    cases hmay.mp h
    exact Nat.le_add_right _ _

theorem bind {x : ExceptT ε (StateT Nat m) α} {x' : ExceptT ε m α}
    {f : α → ExceptT ε (StateT Nat m) β} {f' : α → ExceptT ε m β} (hx : Counts o bound x x')
    (hf : ∀ a, o.mayOk x' a → Counts o other (f a) (f' a)) :
    Counts o (bound + other) (x >>= f) (x' >>= f') := by
  have hok : ∀ {start middle : Nat} {a : α}, o.may (countedFrom x start) (.ok a, middle) →
      o.mayOk x' a := fun h => (hx.erase _ _).mp ⟨_, h⟩
  constructor
  · intro start r
    rw [may_run_bind]
    constructor
    · intro h
      obtain ⟨total, htotal⟩ := h
      rcases (may_countedFrom_bind o).mp htotal with ⟨a, middle, ha, hr⟩ | ⟨e, rfl, he⟩
      · exact .inl ⟨a, hok ha, ((hf a (hok ha)).erase _ _).mp ⟨total, hr⟩⟩
      · exact .inr ⟨e, rfl, (hx.erase _ _).mp ⟨total, he⟩⟩
    · intro h
      rcases h with ⟨a, ha, hr⟩ | ⟨e, rfl, he⟩
      · obtain ⟨middle, hmiddle⟩ := (hx.erase start _).mpr ha
        obtain ⟨total, htotal⟩ := ((hf a ha).erase middle _).mpr hr
        exact ⟨total, (may_countedFrom_bind o).mpr (.inl ⟨a, middle, hmiddle, htotal⟩)⟩
      · obtain ⟨total, htotal⟩ := (hx.erase start _).mpr he
        exact ⟨total, (may_countedFrom_bind o).mpr (.inr ⟨e, rfl, htotal⟩)⟩
  · intro start total r h
    rcases (may_countedFrom_bind o).mp h with ⟨a, middle, ha, hr⟩ | ⟨e, _, he⟩
    · have hfirst := hx.le ha
      have hsecond := (hf a (hok ha)).le hr
      omega
    · have hfirst := hx.le he
      omega

theorem tick_bind {x : ExceptT ε (StateT Nat m) α} {x' : ExceptT ε m α} (hx : Counts o bound x x') :
    Counts o (bound + 1) (tick >>= fun _ => x) x' := by
  have htick : ∀ {start middle : Nat} {r : Except ε Unit},
      o.may (countedFrom tick start) (r, middle) ↔ (r, middle) = (.ok (), start + 1) :=
    o.may_pure _ _
  constructor
  · intro start r
    rw [← hx.erase (start + 1) r]
    refine exists_congr fun total => (may_countedFrom_bind o).trans ?_
    simp [htick]
  · intro start total r h
    rcases (may_countedFrom_bind o).mp h with ⟨_, middle, hstart, hr⟩ | ⟨e, _, he⟩
    · cases htick.mp hstart
      have hrest := hx.le hr
      omega
    · cases htick.mp he

theorem congr {counted : ExceptT ε (StateT Nat m) α} {plain plain' : ExceptT ε m α}
    (h : Counts o bound counted plain) (hsame : ∀ r, o.may plain.run r ↔ o.may plain'.run r) :
    Counts o bound counted plain' where
  erase start r := (h.erase start r).trans (hsame r)
  le := h.le

theorem bind_lift {x : ExceptT ε (StateT Nat m) α} {x' : Except ε α}
    {f : α → ExceptT ε (StateT Nat m) β} {f' : α → Except ε β} (hx : Counts o bound x (lift x'))
    (hf : ∀ a, x' = .ok a → Counts o other (f a) (lift (f' a))) :
    Counts o (bound + other) (x >>= f) (lift (x' >>= f')) := by
  refine (hx.bind fun a ha => hf a ((o.mayOk_lift _ _).mp ha)).congr fun r => ?_
  have hlift : ∀ {γ : Type} (y : Except ε γ) (r : Except ε γ),
    o.may (lift y : ExceptT ε m γ).run r ↔
      r = y := fun y r => o.may_pure _ _
  rw [may_run_bind, hlift]
  simp only [o.mayOk_lift, o.mayFail_lift, hlift]
  cases x' with
  | ok a => simp
  | error e => simp

end Counts

end

end LicoArc
