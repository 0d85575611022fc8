import Mathlib

/-!
# Folds that rise in rank

A fold that replaces its state by the next item exactly when the item ranks
higher. Its result ranks highest among the start and the items, so that it
depends on their set alone where the ranks tell them apart.
-/

namespace LicoArc

namespace RankedFold

variable {σ ρ : Type*} [LinearOrder ρ] (rank : σ → ρ)

/-- The item when it ranks higher than the state. -/
def rise (current next : σ) : σ := if rank current < rank next then next else current

def risen (start : σ) (items : List σ) : σ := items.foldl (rise rank) start

variable {rank} {start current next : σ} {items others : List σ}

theorem le_rise : rank current ≤ rank (rise rank current next) := by
  rw [rise]
  split_ifs with h
  · exact h.le
  · exact le_rfl

theorem item_le_rise : rank next ≤ rank (rise rank current next) := by
  rw [rise]
  split_ifs with h
  · exact le_rfl
  · exact not_lt.mp h

theorem rise_of_le (h : rank next ≤ rank current) : rise rank current next = current := by
  rw [rise, if_neg (not_lt.mpr h)]

theorem le_risen : rank start ≤ rank (risen rank start items) := by
  induction items generalizing start with
  | nil => exact le_rfl
  | cons item items ih => exact le_rise.trans ih

theorem item_le_risen {item : σ} (h : item ∈ items) :
    rank item ≤ rank (risen rank start items) := by
  induction items generalizing start with
  | nil => cases h
  | cons first items ih =>
    rcases List.mem_cons.mp h with rfl | h
    · exact item_le_rise.trans le_risen
    · exact ih h

theorem risen_mem : risen rank start items ∈ start :: items := by
  induction items generalizing start with
  | nil => exact List.mem_cons_self
  | cons first items ih =>
    have hrise : rise rank start first = start ∨ rise rank start first = first := by
      rw [rise]
      split_ifs
      · exact .inr rfl
      · exact .inl rfl
    have hmem := @ih (rise rank start first)
    rw [risen, List.foldl_cons]
    rcases List.mem_cons.mp hmem with heq | hmem
    · rw [risen] at heq
      rw [heq]
      rcases hrise with hrise | hrise <;> simp [hrise]
    · exact List.mem_cons_of_mem _ (List.mem_cons_of_mem _ hmem)

theorem risen_of_top (h : ∀ item ∈ items, rank item ≤ rank start) :
    risen rank start items = start := by
  induction items with
  | nil => rfl
  | cons first items ih =>
    rw [List.forall_mem_cons] at h
    rw [risen, List.foldl_cons, rise_of_le h.1]
    exact ih h.2

/-- Where the ranks tell the items apart, the result depends on the set of the items alone. -/
theorem risen_congr (hinj : Set.InjOn rank { item | item ∈ start :: items })
    (hmem : ∀ item, item ∈ others ↔ item ∈ items) :
    risen rank start others = risen rank start items := by
  have hsame : risen rank start others ∈ start :: items := by
    rcases List.mem_cons.mp (@risen_mem _ _ _ rank start others) with heq | hitem
    · rw [heq]
      exact List.mem_cons_self
    · exact List.mem_cons_of_mem _ ((hmem _).mp hitem)
  refine hinj hsame risen_mem (le_antisymm ?_ ?_)
  · rcases List.mem_cons.mp hsame with heq | hitem
    · rw [heq]
      exact le_risen
    · exact item_le_risen hitem
  · rcases List.mem_cons.mp (@risen_mem _ _ _ rank start items) with heq | hitem
    · rw [heq]
      exact le_risen
    · exact item_le_risen ((hmem _).mpr hitem)

end RankedFold

end LicoArc
