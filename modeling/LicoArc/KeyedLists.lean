import Mathlib

/-!
# Lists that hold a finite map

A list of entries with distinct keys holds a table: the value of each of its
keys. An entry that is appended, removed or given another value changes the
table at one key. Two sorted lists of one table are the same list.
-/

namespace LicoArc

section

variable {α κ ν : Type}

/-- The list has one entry for each key of the table, with its value. -/
structure Holds (key : α → κ) (value : α → ν) (entries : List α) (table : κ → Option ν) :
    Prop where
  nodup : (entries.map key).Nodup
  entry : ∀ k v, table k = some v ↔ ∃ a ∈ entries, key a = k ∧ value a = v

namespace Holds

variable {key : α → κ} {value : α → ν} {entries entries' : List α} {table : κ → Option ν}

theorem of_mem (h : Holds key value entries table) {a : α} (ha : a ∈ entries) :
    table (key a) = some (value a) :=
  (h.entry _ _).mpr ⟨a, ha, rfl, rfl⟩

theorem absent_iff (h : Holds key value entries table) {k : κ} :
    table k = none ↔ ∀ a ∈ entries, key a ≠ k := by
  constructor
  · rintro hnone a ha rfl
    rw [h.of_mem ha] at hnone
    cases hnone
  · intro hfresh
    cases hk : table k with
    | none => rfl
    | some v =>
      obtain ⟨a, ha, hkey, _⟩ := (h.entry k v).mp hk
      exact absurd hkey (hfresh a ha)

theorem present_iff (h : Holds key value entries table) {k : κ} :
    table k ≠ none ↔ ∃ a ∈ entries, key a = k := by
  rw [ne_eq, h.absent_iff]
  simp

theorem perm (h : Holds key value entries table) (hperm : entries'.Perm entries) :
    Holds key value entries' table where
  nodup := (hperm.map key).nodup_iff.mpr h.nodup
  entry k v := by
    rw [h.entry]
    simp only [hperm.mem_iff]

variable [DecidableEq κ]

theorem concat (h : Holds key value entries table) {a : α} (hfresh : table (key a) = none) :
    Holds key value (entries ++ [a]) (Function.update table (key a) (some (value a))) where
  nodup := by
    rw [List.map_append, List.map_singleton, List.nodup_append]
    refine ⟨h.nodup, List.nodup_singleton _, ?_⟩
    intro k hk k' hk'
    obtain ⟨b, hb, rfl⟩ := List.mem_map.mp hk
    rw [List.mem_singleton.mp hk']
    exact h.absent_iff.mp hfresh b hb
  entry k v := by
    by_cases hk : k = key a
    · subst hk
      rw [Function.update_self, Option.some.injEq]
      constructor
      · intro hv
        exact ⟨a, List.mem_append_right _ (List.mem_singleton_self a), rfl, hv⟩
      · rintro ⟨b, hb, hkey, hv⟩
        rcases List.mem_append.mp hb with hb | hb
        · exact absurd hkey (h.absent_iff.mp hfresh b hb)
        · rwa [List.mem_singleton.mp hb] at hv
    · rw [Function.update_of_ne hk, h.entry]
      constructor
      · rintro ⟨b, hb, hkey, hv⟩
        exact ⟨b, List.mem_append_left _ hb, hkey, hv⟩
      · rintro ⟨b, hb, hkey, hv⟩
        rcases List.mem_append.mp hb with hb | hb
        · exact ⟨b, hb, hkey, hv⟩
        · rw [List.mem_singleton.mp hb] at hkey
          exact absurd hkey.symm hk

theorem filter (h : Holds key value entries table) (k : κ) :
    Holds key value (entries.filter (key · ≠ k)) (Function.update table k none) where
  nodup := h.nodup.sublist (List.filter_sublist.map key)
  entry k' v := by
    by_cases hk : k' = k
    · subst hk
      rw [Function.update_self]
      refine iff_of_false nofun ?_
      rintro ⟨a, ha, hkey, _⟩
      exact of_decide_eq_true (List.mem_filter.mp ha).2 hkey
    · rw [Function.update_of_ne hk, h.entry]
      simp only [List.mem_filter, decide_eq_true_eq]
      constructor
      · rintro ⟨a, ha, hkey, hv⟩
        exact ⟨a, ⟨ha, fun heq => hk (hkey.symm.trans heq)⟩, hkey, hv⟩
      · rintro ⟨a, ⟨ha, _⟩, hkey, hv⟩
        exact ⟨a, ha, hkey, hv⟩

theorem revalue (h : Holds key value entries table) {k : κ} {v : ν} {new : α → α}
    (hkey : ∀ a, key (new a) = key a) (hvalue : ∀ a, value (new a) = v)
    (hpresent : table k ≠ none) :
    Holds key value (entries.map fun a => if key a = k then new a else a)
      (Function.update table k (some v)) where
  nodup := by
    have hkeys : (entries.map fun a => if key a = k then new a else a).map key =
        entries.map key := by
      rw [List.map_map]
      refine List.map_congr_left fun a _ => ?_
      simp only [Function.comp]
      split
      · exact hkey a
      · rfl
    rw [hkeys]
    exact h.nodup
  entry k' v' := by
    simp only [List.mem_map, exists_exists_and_eq_and]
    by_cases hk : k' = k
    · subst hk
      rw [Function.update_self, Option.some.injEq]
      constructor
      · rintro rfl
        obtain ⟨a, ha, hat⟩ := h.present_iff.mp hpresent
        exact ⟨a, ha, by rw [if_pos hat, hkey, hat], by rw [if_pos hat, hvalue]⟩
      · rintro ⟨a, _, hat, hv⟩
        split at hat
        · next hold => rw [if_pos hold, hvalue] at hv; exact hv
        · next hold => exact absurd hat hold
    · rw [Function.update_of_ne hk, h.entry]
      constructor
      · rintro ⟨a, ha, hat, hv⟩
        have hother : key a ≠ k := fun heq => hk (hat.symm.trans heq)
        exact ⟨a, ha, by rw [if_neg hother, hat], by rw [if_neg hother, hv]⟩
      · rintro ⟨a, ha, hat, hv⟩
        split at hat
        · next hold => exact absurd (hat.symm.trans ((hkey a).trans hold)) hk
        · next hold => exact ⟨a, ha, hat, by rwa [if_neg hold] at hv⟩

theorem set_findIdx (h : Holds key value entries table) {a : α} (ha : a ∈ entries) (b : α) :
    entries.set (entries.findIdx (key · = key a)) b =
      entries.map fun c => if key c = key a then b else c := by
  have hnodup := h.nodup
  clear h
  induction entries with
  | nil => rfl
  | cons first rest ih =>
    rw [List.map_cons, List.nodup_cons] at hnodup
    obtain ⟨hfirst, hnodup⟩ := hnodup
    rw [List.findIdx_cons, List.map_cons]
    by_cases hkey : key first = key a
    · rw [if_pos hkey, decide_eq_true hkey]
      have hrest : rest.map (fun c => if key c = key a then b else c) = rest.map id := by
        refine List.map_congr_left fun c hc => if_neg fun heq => hfirst ?_
        rw [hkey, ← heq]
        exact List.mem_map_of_mem hc
      rw [hrest, List.map_id]
      rfl
    · rw [if_neg hkey, decide_eq_false hkey]
      have hmem : a ∈ rest := (List.mem_cons.mp ha).resolve_left fun heq => hkey (by rw [heq])
      exact congrArg (first :: ·) (ih hmem hnodup)

end Holds

def tableOf [DecidableEq κ] (key : α → κ) (value : α → ν) (entries : List α) (k : κ) : Option ν :=
  (entries.find? (key · = k)).map value

theorem holds_tableOf [DecidableEq κ] {key : α → κ} {value : α → ν} {entries : List α}
    (hnodup : (entries.map key).Nodup) : Holds key value entries (tableOf key value entries) where
  nodup := hnodup
  entry k v := by
    rw [tableOf, Option.map_eq_some_iff]
    constructor
    · rintro ⟨a, ha, hv⟩
      have hkey := List.find?_some ha
      exact ⟨a, List.mem_of_find?_eq_some ha, of_decide_eq_true hkey, hv⟩
    · rintro ⟨a, ha, hkey, hv⟩
      cases hfind : entries.find? (key · = k) with
      | none =>
        have hnone := List.find?_eq_none.mp hfind a ha
        simp [hkey] at hnone
      | some b =>
        refine ⟨b, rfl, ?_⟩
        have hb := List.mem_of_find?_eq_some hfind
        have hbkey := List.find?_some hfind
        rw [List.inj_on_of_nodup_map hnodup hb ha ((of_decide_eq_true hbkey).trans hkey.symm)]
        exact hv

end

/-! ## Lists of partial answers -/

section

variable {α β κ : Type} [DecidableEq κ] {key : α → κ} {answer : β → κ} {entries : List α}
  {answers : List β}

theorem find?_eq_some_of_nodup (hnodup : (answers.map answer).Nodup) {b : β} (hb : b ∈ answers) :
    answers.find? (answer · = answer b) = some b := by
  cases hfind : answers.find? (answer · = answer b) with
  | none =>
    have hnone := List.find?_eq_none.mp hfind b hb
    exact absurd (decide_eq_true rfl) hnone
  | some c =>
    have hc := List.mem_of_find?_eq_some hfind
    have hkey := List.find?_some hfind
    rw [List.inj_on_of_nodup_map hnodup hc hb (of_decide_eq_true hkey)]

/-- The entries with an answer of the property are as many as such answers, where each answer
belongs to an entry. -/
theorem countP_find? (hentries : (entries.map key).Nodup) (hanswers : (answers.map answer).Nodup)
    (hsubset : ∀ b ∈ answers, ∃ a ∈ entries, key a = answer b) (p : β → Bool) :
    entries.countP (fun a => (answers.find? (answer · = key a)).any p) = answers.countP p := by
  rw [List.countP_eq_length_filter, List.countP_eq_length_filter,
    ← @List.length_map _ _ _ key, ← @List.length_map _ _ _ answer]
  refine List.Perm.length_eq ((List.perm_ext_iff_of_nodup ?_ ?_).mpr fun k => ?_)
  · exact hentries.sublist (List.filter_sublist.map key)
  · exact hanswers.sublist (List.filter_sublist.map answer)
  · rw [List.mem_map, List.mem_map]
    constructor
    · rintro ⟨a, ha, rfl⟩
      obtain ⟨b, hb, hp⟩ := (Option.any_eq_true _ _).mp (List.mem_filter.mp ha).2
      have hkey := List.find?_some hb
      exact ⟨b, List.mem_filter.mpr ⟨List.mem_of_find?_eq_some hb, hp⟩, of_decide_eq_true hkey⟩
    · rintro ⟨b, hb, rfl⟩
      obtain ⟨hb, hp⟩ := List.mem_filter.mp hb
      obtain ⟨a, ha, hkey⟩ := hsubset b hb
      refine ⟨a, List.mem_filter.mpr ⟨ha, ?_⟩, hkey⟩
      rw [hkey, find?_eq_some_of_nodup hanswers hb]
      exact hp

end

/-! ## Sorted lists -/

section

variable {α ρ : Type} [LE ρ] [LT ρ] [Std.IsLinearOrder ρ] [Std.LawfulOrderLT ρ] {rank : α → ρ}

theorem pairwise_lt_mergeSort [DecidableLE ρ] {entries : List α}
    (hnodup : (entries.map rank).Nodup) :
    (entries.mergeSort fun a b => rank a ≤ rank b).Pairwise fun a b => rank a < rank b := by
  have hsorted := @List.pairwise_mergeSort α (fun a b => decide (rank a ≤ rank b))
    (fun a b c hab hbc => decide_eq_true
      (Std.le_trans (of_decide_eq_true hab) (of_decide_eq_true hbc)))
    (fun a b => by simpa using Std.le_total) entries
  have hdistinct : (entries.mergeSort fun a b => rank a ≤ rank b).Pairwise
      fun a b => rank a ≠ rank b :=
    List.pairwise_map.mp (((List.mergeSort_perm entries _).map rank).nodup_iff.mpr hnodup)
  refine (hsorted.and hdistinct).imp fun ⟨hle, hne⟩ => ?_
  exact Std.lt_of_le_of_ne (of_decide_eq_true hle) hne

theorem eq_of_pairwise_lt {entries entries' : List α}
    (h : entries.Pairwise fun a b => rank a < rank b)
    (h' : entries'.Pairwise fun a b => rank a < rank b) (hmem : ∀ a, a ∈ entries ↔ a ∈ entries') :
    entries = entries' := by
  have hnodup {list : List α} (hlist : list.Pairwise fun a b => rank a < rank b) : list.Nodup := by
    refine hlist.imp ?_
    rintro a _ hlt rfl
    exact Std.lt_irrefl hlt
  refine List.Perm.eq_of_pairwise (fun a b _ _ hab hba => ?_) h h'
    ((List.perm_ext_iff_of_nodup (hnodup h) (hnodup h')).mpr hmem)
  exact absurd (Std.lt_trans hab hba) Std.lt_irrefl

end

end LicoArc
