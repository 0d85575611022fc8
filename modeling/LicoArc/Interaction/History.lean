import Mathlib

/-!
# Histories of versions

The versions that a store has held, newest first, with ranks that only ever
grow. A rank names one version of a history, and a longer history keeps every
version of a shorter one.
-/

namespace LicoArc

structure History (V : Type) (rank : V → Nat) where
  newest : V
  older : List V
  descending : (newest :: older).Pairwise fun a b => rank b < rank a

namespace History

variable {V : Type} {rank : V → Nat}

def single (v : V) : History V rank := ⟨v, [], List.pairwise_singleton _ _⟩

def entries (h : History V rank) : List V := h.newest :: h.older

theorem newest_mem (h : History V rank) : h.newest ∈ h.entries := List.mem_cons_self

theorem rank_lt_newest {h : History V rank} {v : V} (hv : v ∈ h.older) :
    rank v < rank h.newest :=
  (List.pairwise_cons.mp h.descending).1 v hv

theorem rank_le_newest {h : History V rank} {v : V} (hv : v ∈ h.entries) :
    rank v ≤ rank h.newest := by
  rcases List.mem_cons.mp hv with rfl | hv
  · exact le_refl _
  · exact le_of_lt (rank_lt_newest hv)

theorem eq_newest_of_rank {h : History V rank} {v : V} (hv : v ∈ h.entries)
    (hrank : rank v = rank h.newest) : v = h.newest := by
  rcases List.mem_cons.mp hv with rfl | hv
  · rfl
  · exact absurd hrank (ne_of_lt (rank_lt_newest hv))

def push (h : History V rank) (v : V) (hrank : rank h.newest < rank v) : History V rank where
  newest := v
  older := h.entries
  descending := by
    refine List.pairwise_cons.mpr ⟨fun a ha => ?_, h.descending⟩
    exact lt_of_le_of_lt (rank_le_newest ha) hrank

def Extends (h h' : History V rank) : Prop := h.entries <:+ h'.entries

theorem Extends.refl (h : History V rank) : h.Extends h := List.suffix_refl _

theorem Extends.trans {h h' h'' : History V rank} (hab : h.Extends h') (hbc : h'.Extends h'') :
    h.Extends h'' :=
  List.IsSuffix.trans hab hbc

theorem Extends.mem {h h' : History V rank} (hext : h.Extends h') {v : V} (hv : v ∈ h.entries) :
    v ∈ h'.entries :=
  List.IsSuffix.subset hext hv

theorem Extends.rank_le {h h' : History V rank} (hext : h.Extends h') :
    rank h.newest ≤ rank h'.newest :=
  rank_le_newest (hext.mem h.newest_mem)

theorem extends_push (h : History V rank) (v : V) (hrank : rank h.newest < rank v) :
    h.Extends (h.push v hrank) :=
  List.suffix_cons _ _

end History

end LicoArc
