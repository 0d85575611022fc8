import Mathlib

/-!
# Lists of ranges

A set of numbers is written as the list of its maximal half-open ranges. The
list is canonical when the ranges are not empty and leave a gap between each
other: it is then the only one of its set, as long as the set has intervals.
-/

namespace LicoArc

namespace RangeList

/-- The ranges are not empty and do not touch. -/
structure Canonical (ranges : List (Nat × Nat)) : Prop where
  positive : ∀ range ∈ ranges, range.1 < range.2
  gaps : ranges.Pairwise fun first second => first.2 < second.1

def covered : List (Nat × Nat) → Finset Nat
  | [] => ∅
  | range :: ranges => Finset.Ico range.1 range.2 ∪ covered ranges

def size (ranges : List (Nat × Nat)) : Nat := (ranges.map fun range => range.2 - range.1).sum

/-- The numbers that start an interval of a set. -/
def starts (numbers : Finset Nat) : Finset Nat :=
  numbers.filter fun n => ∀ m ∈ numbers, m + 1 ≠ n

variable {range : Nat × Nat} {ranges others : List (Nat × Nat)} {n : Nat}

theorem canonical_nil : Canonical [] := ⟨nofun, .nil⟩

theorem canonical_cons : Canonical (range :: ranges) ↔
    range.1 < range.2 ∧ (∀ next ∈ ranges, range.2 < next.1) ∧ Canonical ranges := by
  constructor
  · rintro ⟨hpositive, hgaps⟩
    rw [List.forall_mem_cons] at hpositive
    obtain ⟨hfirst, hrest⟩ := List.pairwise_cons.mp hgaps
    exact ⟨hpositive.1, hfirst, hpositive.2, hrest⟩
  · rintro ⟨hpositive, hfirst, hrest⟩
    exact ⟨List.forall_mem_cons.mpr ⟨hpositive, hrest.positive⟩,
      List.pairwise_cons.mpr ⟨hfirst, hrest.gaps⟩⟩

theorem mem_covered : n ∈ covered ranges ↔ ∃ range ∈ ranges, range.1 ≤ n ∧ n < range.2 := by
  induction ranges with
  | nil => simp [covered]
  | cons range ranges ih => simp [covered, ih]

theorem mem_covered_cons : n ∈ covered (range :: ranges) ↔
    (range.1 ≤ n ∧ n < range.2) ∨ n ∈ covered ranges := by
  rw [covered, Finset.mem_union, Finset.mem_Ico]

theorem Canonical.start_mem (h : Canonical (range :: ranges)) :
    range.1 ∈ covered (range :: ranges) :=
  mem_covered_cons.mpr (.inl ⟨le_rfl, (canonical_cons.mp h).1⟩)

theorem Canonical.beyond (h : Canonical (range :: ranges)) (hn : n ∈ covered ranges) :
    range.2 < n := by
  obtain ⟨next, hnext, hlow, _⟩ := mem_covered.mp hn
  exact ((canonical_cons.mp h).2.1 next hnext).trans_le hlow

theorem size_cons : size (range :: ranges) = range.2 - range.1 + size ranges := by
  rw [size, List.map_cons, List.sum_cons, size]

theorem size_append : size (ranges ++ others) = size ranges + size others := by
  rw [size, List.map_append, List.sum_append, size, size]

theorem Canonical.left (h : Canonical (ranges ++ others)) : Canonical ranges where
  positive range hrange := h.positive range (List.mem_append_left _ hrange)
  gaps := (List.pairwise_append.mp h.gaps).1

theorem Canonical.last_mem (h : Canonical ranges) (hrange : range ∈ ranges) :
    range.2 - 1 ∈ covered ranges := by
  have hpositive := h.positive range hrange
  exact mem_covered.mpr ⟨range, hrange, by omega, by omega⟩

theorem Canonical.card (h : Canonical ranges) : (covered ranges).card = size ranges := by
  induction ranges with
  | nil => rfl
  | cons range ranges ih =>
    have hdisjoint : Disjoint (Finset.Ico range.1 range.2) (covered ranges) := by
      refine Finset.disjoint_left.mpr fun n hn hcovered => ?_
      have hbeyond := h.beyond hcovered
      rw [Finset.mem_Ico] at hn
      omega
    rw [covered, Finset.card_union_of_disjoint hdisjoint, Nat.card_Ico,
      ih (canonical_cons.mp h).2.2, size_cons]

theorem Canonical.first_le {next : Nat × Nat} (h : Canonical (range :: ranges))
    (h' : Canonical (next :: others))
    (hsame : covered (range :: ranges) = covered (next :: others)) :
    next.1 ≤ range.1 ∧ next.2 ≤ range.2 := by
  have hpositive := (canonical_cons.mp h).1
  have hpositive' := (canonical_cons.mp h').1
  have hlow : next.1 ≤ range.1 := by
    have hmem : range.1 ∈ covered (next :: others) :=
      hsame ▸ h.start_mem
    rcases mem_covered_cons.mp hmem with hin | hbeyond
    · exact hin.1
    · exact (hpositive'.trans (h'.beyond hbeyond)).le
  refine ⟨hlow, ?_⟩
  by_contra hhigh
  have hmem : range.2 ∈ covered (range :: ranges) :=
    hsame ▸ mem_covered_cons.mpr (.inl ⟨by omega, by omega⟩)
  rcases mem_covered_cons.mp hmem with hin | hbeyond
  · omega
  · exact lt_irrefl _ (h.beyond hbeyond)

/-- A set has one canonical list. -/
theorem Canonical.ext (h : Canonical ranges) (h' : Canonical others)
    (hsame : covered ranges = covered others) : ranges = others := by
  induction ranges generalizing others with
  | nil =>
    cases others with
    | nil => rfl
    | cons next others =>
      have hmem := h'.start_mem
      rw [← hsame] at hmem
      cases hmem
  | cons range ranges ih =>
    cases others with
    | nil =>
      have hmem := h.start_mem
      rw [hsame] at hmem
      cases hmem
    | cons next others =>
      obtain ⟨hlow, hhigh⟩ := h.first_le h' hsame
      obtain ⟨hlow', hhigh'⟩ := h'.first_le h hsame.symm
      obtain rfl : range = next := Prod.ext (le_antisymm hlow' hlow) (le_antisymm hhigh' hhigh)
      have hrest : covered ranges = covered others := by
        ext n
        have hn := congrArg (n ∈ ·) hsame
        simp only [mem_covered_cons, eq_iff_iff] at hn
        constructor
        · intro hmem
          have hbeyond := h.beyond hmem
          exact (hn.mp (.inr hmem)).resolve_left fun hin => by omega
        · intro hmem
          have hbeyond := h'.beyond hmem
          exact (hn.mpr (.inr hmem)).resolve_left fun hin => by omega
      rw [ih (canonical_cons.mp h).2.2 (canonical_cons.mp h').2.2 hrest]

/-- Every set has a canonical list. -/
theorem exists_canonical (numbers : Finset Nat) :
    ∃ ranges, Canonical ranges ∧ covered ranges = numbers := by
  induction numbers using Finset.induction_on_min with
  | empty => exact ⟨[], canonical_nil, rfl⟩
  | insert n numbers hleast ih =>
    obtain ⟨ranges, hcanonical, rfl⟩ := ih
    cases ranges with
    | nil =>
      refine ⟨[(n, n + 1)], canonical_cons.mpr ⟨n.lt_succ_self, nofun, canonical_nil⟩, ?_⟩
      ext m
      simp only [mem_covered_cons, Finset.mem_insert]
      simp only [covered, Finset.notMem_empty, or_false]
      omega
    | cons range ranges =>
      obtain ⟨hpositive, hgap, hrest⟩ := canonical_cons.mp hcanonical
      have hfirst := hleast range.1 hcanonical.start_mem
      by_cases htouch : range.1 = n + 1
      · refine ⟨(n, range.2) :: ranges, canonical_cons.mpr ⟨by omega, hgap, hrest⟩, ?_⟩
        ext m
        simp only [mem_covered_cons, Finset.mem_insert, ← or_assoc]
        refine or_congr_left ?_
        omega
      · have hgap' : ∀ next ∈ range :: ranges, n + 1 < next.1 := by
          rw [List.forall_mem_cons]
          refine ⟨by omega, fun next hnext => ?_⟩
          have hlater := hgap next hnext
          omega
        refine ⟨(n, n + 1) :: range :: ranges,
          canonical_cons.mpr ⟨n.lt_succ_self, hgap', hcanonical⟩, ?_⟩
        ext m
        rw [mem_covered_cons, Finset.mem_insert]
        refine or_congr_left ?_
        omega

theorem Canonical.apart (h : Canonical ranges) {first second : Nat × Nat} (hfirst : first ∈ ranges)
    (hsecond : second ∈ ranges) (hne : first ≠ second) :
    first.2 < second.1 ∨ second.2 < first.1 := by
  induction ranges with
  | nil => cases hfirst
  | cons range ranges ih =>
    obtain ⟨_, hgap, hrest⟩ := canonical_cons.mp h
    rcases List.mem_cons.mp hfirst with rfl | hlater
    · exact .inl (hgap second ((List.mem_cons.mp hsecond).resolve_left (Ne.symm hne)))
    · rcases List.mem_cons.mp hsecond with rfl | hlater'
      · exact .inr (hgap first hlater)
      · exact ih hrest hlater hlater'

/-- A canonical list has one range for each interval of its set. -/
theorem Canonical.length (h : Canonical ranges) :
    (starts (covered ranges)).card = ranges.length := by
  have hnodup : (ranges.map Prod.fst).Nodup := by
    refine List.pairwise_map.mpr (h.gaps.imp_of_mem fun {first second} hfirst hsecond hlt => ?_)
    exact ((h.positive first hfirst).trans hlt).ne
  have hstarts : starts (covered ranges) = (ranges.map Prod.fst).toFinset := by
    ext n
    rw [starts, Finset.mem_filter, List.mem_toFinset, List.mem_map]
    constructor
    · rintro ⟨hn, hfirst⟩
      obtain ⟨range, hrange, hlow, hhigh⟩ := mem_covered.mp hn
      refine ⟨range, hrange, le_antisymm hlow (not_lt.mp fun hlt => ?_)⟩
      exact hfirst (n - 1) (mem_covered.mpr ⟨range, hrange, by omega, by omega⟩) (by omega)
    · rintro ⟨range, hrange, rfl⟩
      refine ⟨mem_covered.mpr ⟨range, hrange, le_rfl, h.positive range hrange⟩, ?_⟩
      intro m hm hnext
      obtain ⟨other, hother, hlow, hhigh⟩ := mem_covered.mp hm
      have hpositive := h.positive range hrange
      have hne : range ≠ other := by
        rintro rfl
        omega
      have hapart := h.apart hrange hother hne
      omega
  rw [hstarts, List.toFinset_card_of_nodup hnodup, List.length_map]

end RangeList

end LicoArc
