import Mathlib.Data.Set.Insert

/-!
# Numbers under changing keys

A sender numbers what it sends under one key at a time and never returns to a
key. The coordinates, each a key with a number, are then used once.
-/

namespace LicoArc

/-- A sender's keys so far, and its key of now with the next number under it. -/
structure Numbering (κ : Type) where
  used : Set κ
  current : Option (κ × Nat)

namespace Numbering

variable {κ : Type}

def unused : Numbering κ := ⟨∅, none⟩

inductive Step (s : Numbering κ) : List (κ × Nat) → Numbering κ → Prop
  | rekey {key : κ} {n : Nat} (fresh : key ∉ s.used) : Step s [] ⟨insert key s.used, some (key, n)⟩
  | number {key : κ} {n : Nat} (current : s.current = some (key, n)) :
      Step s [(key, n)] ⟨s.used, some (key, n + 1)⟩
  | stop : Step s [] ⟨s.used, none⟩

inductive Run (s : Numbering κ) : List (κ × Nat) → Numbering κ → Prop
  | start : Run s [] s
  | step {t u : Numbering κ} {earlier new : List (κ × Nat)} (run : Run s earlier t)
      (step : Step t new u) : Run s (new ++ earlier) u

/-- Every coordinate is of an old key, or lies below the next number of the key of now. -/
structure Below (coordinates : List (κ × Nat)) (s : Numbering κ) : Prop where
  used {key : κ} {n : Nat} : (key, n) ∈ coordinates → key ∈ s.used
  current {key : κ} {n next : Nat} : (key, n) ∈ coordinates → s.current = some (key, next) →
    n < next
  key {key : κ} {next : Nat} : s.current = some (key, next) → key ∈ s.used
  nodup : coordinates.Nodup

theorem Below.unused : Below [] (Numbering.unused : Numbering κ) :=
  ⟨(by rintro _ _ ⟨⟩), (by rintro _ _ _ ⟨⟩), (by rintro _ _ ⟨⟩), List.nodup_nil⟩

theorem Below.step {coordinates new : List (κ × Nat)} {s t : Numbering κ} (h : Below coordinates s)
    (hstep : s.Step new t) : Below (new ++ coordinates) t := by
  cases hstep with
  | @rekey key n fresh =>
    refine ⟨fun hmem => .inr (h.used hmem), fun hmem hcurrent => ?_, fun hcurrent => ?_, h.nodup⟩
    · cases hcurrent
      exact absurd (h.used hmem) fresh
    · cases hcurrent
      exact Set.mem_insert _ _
  | @number key n current =>
    refine ⟨fun hmem => ?_, fun hmem hcurrent => ?_, fun hcurrent => ?_, ?_⟩
    · rcases List.mem_cons.mp hmem with heq | hmem
      · cases heq
        exact h.key current
      · exact h.used hmem
    · cases hcurrent
      rcases List.mem_cons.mp hmem with heq | hmem
      · cases heq
        exact Nat.lt_succ_self _
      · exact Nat.lt_succ_of_lt (h.current hmem current)
    · cases hcurrent
      exact h.key current
    · refine List.nodup_cons.mpr ⟨fun hmem => ?_, h.nodup⟩
      exact absurd (h.current hmem current) (Nat.lt_irrefl n)
  | stop => exact ⟨fun hmem => h.used hmem, (by rintro _ _ _ _ ⟨⟩), (by rintro _ _ ⟨⟩), h.nodup⟩

theorem Run.lies_below {coordinates : List (κ × Nat)} {s : Numbering κ}
    (h : Numbering.unused.Run coordinates s) : Below coordinates s := by
  induction h with
  | start => exact .unused
  | step _ step ih => exact ih.step step

theorem Run.nodup {coordinates : List (κ × Nat)} {s : Numbering κ}
    (h : Numbering.unused.Run coordinates s) : coordinates.Nodup :=
  h.lies_below.nodup

end Numbering

end LicoArc
