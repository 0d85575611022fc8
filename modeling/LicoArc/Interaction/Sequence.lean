import LicoArc.Interaction.Outcome

/-!
# Loops of fallible steps

A loop over a list succeeds when each of its steps does. It ends in an error
that a step raises after steps that succeeded.
-/

namespace LicoArc

variable {ε α β σ : Type}

theorem Except.forM_eq_ok {f : α → Except ε Unit} {xs : List α} {u : Unit} :
    xs.forM f = .ok u ↔ ∀ x ∈ xs, f x = .ok () := by
  induction xs with
  | nil => simp
  | cons x xs ih =>
    change (f x >>= fun _ => xs.forM f) = .ok u ↔ _
    rw [Except.bind_eq_ok, List.forall_mem_cons]
    exact ⟨fun ⟨_, hx, hxs⟩ => ⟨hx, ih.mp hxs⟩, fun ⟨hx, hxs⟩ => ⟨(), hx, ih.mpr hxs⟩⟩

theorem Except.mapM_eq_ok {f : α → Except ε β} {xs : List α} {ys : List β} :
    xs.mapM f = .ok ys ↔ List.Forall₂ (fun x y => f x = .ok y) xs ys := by
  induction xs generalizing ys with
  | nil => simp [eq_comm]
  | cons x xs ih =>
    rw [List.mapM_cons, List.forall₂_cons_left_iff]
    simp only [Except.bind_eq_ok, ih, Except.pure_eq, Except.ok.injEq]
    constructor
    · rintro ⟨y, hx, ys', hxs, rfl⟩
      exact ⟨y, ys', hx, hxs, rfl⟩
    · rintro ⟨y, ys', hx, hxs, rfl⟩
      exact ⟨y, hx, ys', hxs, rfl⟩

theorem Except.exists_mem_of_mapM_eq_ok {f : α → Except ε β} {xs : List α} {ys : List β}
    (h : xs.mapM f = .ok ys) {y : β} (hy : y ∈ ys) : ∃ x ∈ xs, f x = .ok y := by
  have hall := Except.mapM_eq_ok.mp h
  induction hall with
  | nil => cases hy
  | cons hhead _ ih =>
    rcases List.mem_cons.mp hy with rfl | hy
    · exact ⟨_, List.mem_cons_self, hhead⟩
    · obtain ⟨x, hx, hf⟩ := ih (Except.mapM_eq_ok.mpr ‹_›) hy
      exact ⟨x, List.mem_cons_of_mem _ hx, hf⟩

theorem Except.mapM_eq_ok_iff_map {f : α → Except ε β} {g : β → α} {p : β → Prop} {xs : List α}
    {ys : List β} (h : ∀ x ∈ xs, ∀ y, f x = .ok y ↔ x = g y ∧ p y) :
    xs.mapM f = .ok ys ↔ xs = ys.map g ∧ ∀ y ∈ ys, p y := by
  rw [Except.mapM_eq_ok]
  induction xs generalizing ys with
  | nil => cases ys <;> simp
  | cons x xs ih =>
    rw [List.forall_mem_cons] at h
    cases ys with
    | nil => simp
    | cons y ys =>
      rw [List.forall₂_cons, h.1 y, ih h.2, List.map_cons, List.cons.injEq, List.forall_mem_cons]
      exact and_and_and_comm

section Avoids

variable {e : ε}

theorem Except.bind_ne_error {x : Except ε α} {f : α → Except ε β} :
    (x >>= f) ≠ .error e ↔ x ≠ .error e ∧ ∀ a, x = .ok a → f a ≠ .error e := by
  cases x <;> simp

theorem Except.ne_error_of_bind {x : Except ε α} {f : α → Except ε β} {a : α}
    (h : (x >>= f) ≠ .error e) (hx : x = .ok a) : f a ≠ .error e :=
  (Except.bind_ne_error.mp h).2 a hx

theorem Except.bind_ne_error_of {x : Except ε α} {f : α → Except ε β} (hx : x ≠ .error e)
    (hf : ∀ a, x = .ok a → f a ≠ .error e) : (x >>= f) ≠ .error e :=
  Except.bind_ne_error.mpr ⟨hx, hf⟩

theorem Except.forM_ne_error {f : α → Except ε Unit} {xs : List α}
    (h : ∀ x ∈ xs, f x ≠ .error e) : xs.forM f ≠ .error e := by
  induction xs with
  | nil => exact nofun
  | cons x xs ih =>
    change (f x >>= fun _ => xs.forM f) ≠ _
    rw [Except.bind_ne_error]
    exact ⟨h x List.mem_cons_self, fun _ _ => ih fun x' hx' => h x' (List.mem_cons_of_mem _ hx')⟩

theorem Except.mapM_ne_error {f : α → Except ε β} {xs : List α}
    (h : ∀ x ∈ xs, f x ≠ .error e) : xs.mapM f ≠ .error e := by
  induction xs with
  | nil => exact nofun
  | cons x xs ih =>
    rw [List.mapM_cons, Except.bind_ne_error]
    refine ⟨h x List.mem_cons_self, fun y _ => ?_⟩
    rw [Except.bind_ne_error]
    exact ⟨ih fun x' hx' => h x' (List.mem_cons_of_mem _ hx'), fun _ _ => nofun⟩

/-- The step that raises the error comes after steps that succeeded. -/
theorem Except.mapM_ne_error_iff {f : α → Except ε β} {xs : List α} :
    xs.mapM f ≠ .error e ↔ ∀ (i : Nat) (h : i < xs.length),
      (∀ (j : Nat) (hj : j < i), ∃ b, f xs[j] = .ok b) → f xs[i] ≠ .error e := by
  induction xs with
  | nil => simp
  | cons x xs ih =>
    rw [List.mapM_cons, Except.bind_ne_error]
    constructor
    · rintro ⟨hx, hxs⟩ i hi hbefore
      cases i with
      | zero => exact hx
      | succ i =>
        obtain ⟨b, hb⟩ := hbefore 0 (Nat.succ_pos i)
        refine ih.mp (Except.bind_ne_error.mp (hxs b hb)).1 i (Nat.lt_of_succ_lt_succ hi)
          fun j hj => ?_
        exact hbefore (j + 1) (Nat.succ_lt_succ hj)
    · intro h
      refine ⟨h 0 (Nat.succ_pos _) nofun, fun b hb =>
        Except.bind_ne_error.mpr ⟨?_, fun _ _ => nofun⟩⟩
      refine ih.mpr fun i hi hbefore => h (i + 1) (Nat.succ_lt_succ hi) fun j hj => ?_
      cases j with
      | zero => exact ⟨b, hb⟩
      | succ j => exact hbefore j (Nat.lt_of_succ_lt_succ hj)

theorem Except.foldlM_ne_error_iff {f : σ → α → Except ε σ} {xs : List α} {s : σ} :
    xs.foldlM f s ≠ .error e ↔ ∀ before x after, xs = before ++ x :: after →
      ∀ reached, before.foldlM f s = .ok reached → f reached x ≠ .error e := by
  induction xs generalizing s with
  | nil => simp
  | cons x xs ih =>
    rw [List.foldlM_cons, Except.bind_ne_error]
    constructor
    · rintro ⟨hx, hxs⟩ before y after hsplit reached hreached
      cases before with
      | nil =>
        obtain ⟨rfl, rfl⟩ := List.cons.inj hsplit
        cases hreached
        exact hx
      | cons z before =>
        obtain ⟨rfl, rfl⟩ := List.cons.inj hsplit
        rw [List.foldlM_cons, Except.bind_eq_ok] at hreached
        obtain ⟨next, hnext, hreached⟩ := hreached
        exact ih.mp (hxs next hnext) before y after rfl reached hreached
    · intro h
      refine ⟨h [] x xs rfl s rfl, fun next hnext => ih.mpr fun before y after hsplit => ?_⟩
      intro reached hreached
      refine h (x :: before) y after (by rw [hsplit]; rfl) reached ?_
      rw [List.foldlM_cons, hnext, Except.ok_bind, hreached]

end Avoids

end LicoArc
