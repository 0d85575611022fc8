import LicoArc.EncodingLaws

/-!
# Domain constants

A domain constant ends in the only NUL byte it has, so that an input under one
constant is never an input under another.
-/

namespace LicoArc

theorem append_cons_inj {α : Type} {mark : α} {first second rest rest' : List α}
    (hfirst : mark ∉ first) (hsecond : mark ∉ second)
    (h : first ++ mark :: rest = second ++ mark :: rest') : first = second ∧ rest = rest' := by
  induction first generalizing second with
  | nil =>
    cases second with
    | nil => exact ⟨rfl, (List.cons.inj h).2⟩
    | cons byte second =>
      have hmark := (List.cons.inj h).1
      exact absurd (hmark ▸ List.mem_cons_self) hsecond
  | cons byte first ih =>
    cases second with
    | nil =>
      have hmark := (List.cons.inj h).1
      exact absurd (hmark ▸ List.mem_cons_self) hfirst
    | cons byte' second =>
      obtain ⟨hbyte, h⟩ := List.cons.inj h
      rw [List.mem_cons, not_or] at hfirst hsecond
      obtain ⟨hsame, hrest⟩ := ih hfirst.2 hsecond.2 h
      exact ⟨by rw [hbyte, hsame], hrest⟩

/-- A label has no NUL byte. -/
def Labelled (label : String) : Prop := 0 ∉ Encoding.textBytes label

instance (label : String) : Decidable (Labelled label) :=
  inferInstanceAs (Decidable (0 ∉ Encoding.textBytes label))

theorem domain_append_inj {label label' : String} {input input' : Bytes} (hlabel : Labelled label)
    (hlabel' : Labelled label') (h : domain label ++ input = domain label' ++ input') :
    label = label' ∧ input = input' := by
  have hdomain : ∀ label input, domain label ++ input = Encoding.textBytes label ++ 0 :: input := by
    intro label input
    rw [domain, List.append_assoc, List.singleton_append]
    rfl
  rw [hdomain, hdomain] at h
  obtain ⟨hsame, hinput⟩ := append_cons_inj hlabel hlabel' h
  exact ⟨Encoding.textBytes_injective hsame, hinput⟩

end LicoArc
