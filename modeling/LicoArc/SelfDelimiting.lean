import Mathlib

/-!
# Self-delimiting texts

A writer delimits a value when its text, whatever ending follows it, is not the
text of a value of another mark with another ending: the text tells what it
stands for and where it ends. Symbols of one class, terminated lists and
separated lists of delimited parts are delimited.
-/

namespace LicoArc

section

variable {α β σ : Type}

/-- The text of a value tells its mark and where it ends, among the values of a domain. -/
def Delimited (write : α → List σ) (mark : α → β) (domain : α → Prop) (ends : List σ → Prop)
    (a : α) : Prop :=
  ∀ b, domain b → ∀ rest rest', ends rest → ends rest' → write a ++ rest = write b ++ rest' →
    mark a = mark b ∧ rest = rest'

/-- No symbol of the class goes on the text. -/
def Stops (p : σ → Bool) (rest : List σ) : Prop := ∀ c ∈ rest.head?, p c = false

theorem takeWhile_append_stops {p : σ → Bool} {text rest : List σ} (htext : ∀ c ∈ text, p c = true)
    (hrest : Stops p rest) : (text ++ rest).takeWhile p = text := by
  rw [List.takeWhile_append_of_pos htext]
  cases rest with
  | nil => rw [List.takeWhile_nil, List.append_nil]
  | cons c rest =>
    have hstop : ¬p c = true := by
      rw [hrest c rfl]
      exact Bool.false_ne_true
    rw [List.takeWhile_cons_of_neg hstop, List.append_nil]

theorem delimited_of_class {write : α → List σ} {mark : α → β} {domain : α → Prop} {p : σ → Bool}
    (hclass : ∀ a, domain a → ∀ c ∈ write a, p c = true)
    (hmark : ∀ a b, write a = write b → mark a = mark b) {a : α} (ha : domain a) :
    Delimited write mark domain (Stops p) a := by
  intro b hb rest rest' hrest hrest' h
  have htext := congrArg (List.takeWhile p) h
  rw [takeWhile_append_stops (hclass a ha) hrest, takeWhile_append_stops (hclass b hb) hrest']
    at htext
  rw [htext] at h
  exact ⟨hmark a b htext, List.append_cancel_left h⟩

/-- A list of delimited symbols before a terminator that begins none of them. -/
theorem delimited_terminated {code : α → List σ} {close : σ}
    (hcode : ∀ a, Delimited code id (fun _ => True) (fun _ => True) a)
    (hhead : ∀ a, ∃ c rest, code a = c :: rest ∧ c ≠ close) (as : List α) :
    Delimited (fun as => as.flatMap code ++ [close]) id (fun _ => True) (fun _ => True) as := by
  intro bs _ rest rest' _ _ h
  simp only [List.append_assoc, List.singleton_append] at h
  induction as generalizing bs with
  | nil =>
    cases bs with
    | nil => exact ⟨rfl, (List.cons.inj h).2⟩
    | cons b bs =>
      obtain ⟨c, text, hb, hne⟩ := hhead b
      rw [List.flatMap_cons, hb] at h
      exact absurd (List.cons.inj h).1.symm hne
  | cons a as ih =>
    cases bs with
    | nil =>
      obtain ⟨c, text, ha, hne⟩ := hhead a
      rw [List.flatMap_cons, ha] at h
      exact absurd (List.cons.inj h).1 hne
    | cons b bs =>
      rw [List.flatMap_cons, List.flatMap_cons, List.append_assoc, List.append_assoc] at h
      obtain ⟨hab, hrest⟩ := hcode a b trivial _ _ trivial trivial h
      obtain ⟨hlists, hends⟩ := ih bs hrest
      exact ⟨congrArg₂ List.cons hab hlists, hends⟩

def separated (separator : σ) (first : Bool) : List (List σ) → List σ
  | [] => []
  | part :: parts =>
    (if first then [] else [separator]) ++ (part ++ separated separator false parts)

theorem separated_true (separator : σ) (part : List σ) (parts : List (List σ)) :
    separated separator true (part :: parts) = part ++ separated separator false parts := rfl

theorem separated_false (separator : σ) (part : List σ) (parts : List (List σ)) :
    separated separator false (part :: parts) =
      separator :: (part ++ separated separator false parts) := rfl

theorem separated_cons_append (separator : σ) (first : Bool) (part : List σ) (parts : List (List σ))
    (rest : List σ) : separated separator first (part :: parts) ++ rest =
      (if first then [] else [separator]) ++
        (part ++ (separated separator false parts ++ rest)) := by
  rw [separated, List.append_assoc, List.append_assoc]

theorem separated_rest {separator close : σ} {ends : List σ → Prop}
    (hends : ∀ c, c = separator ∨ c = close → ∀ rest, ends (c :: rest)) (parts : List (List σ))
    (rest : List σ) : ends (separated separator false parts ++ close :: rest) := by
  cases parts with
  | nil => exact hends close (.inr rfl) rest
  | cons part parts => exact hends separator (.inl rfl) _

theorem separated_inj {write : α → List σ} {mark : α → β} {domain : α → Prop}
    {ends : List σ → Prop} {separator close : σ} (hne : separator ≠ close)
    (hends : ∀ c, c = separator ∨ c = close → ∀ rest, ends (c :: rest))
    (hhead : ∀ a, domain a → ∃ c rest, write a = c :: rest ∧ c ≠ close) {as bs : List α}
    (has : ∀ a ∈ as, domain a ∧ Delimited write mark domain ends a) (hbs : ∀ b ∈ bs, domain b)
    {first : Bool} {rest rest' : List σ}
    (h : separated separator first (as.map write) ++ close :: rest =
      separated separator first (bs.map write) ++ close :: rest') :
    as.map mark = bs.map mark ∧ rest = rest' := by
  have hopen : ∀ {first : Bool} {a : α} {parts : List (List σ)} {after tail : List σ}, domain a →
      separated separator first (write a :: parts) ++ after ≠ close :: tail := by
    intro first a parts after tail ha heq
    obtain ⟨c, text, hwrite, hc⟩ := hhead a ha
    cases first with
    | true =>
      rw [separated, if_pos rfl, hwrite] at heq
      exact hc (List.cons.inj heq).1
    | false => exact hne (List.cons.inj heq).1
  induction as generalizing bs first with
  | nil =>
    cases bs with
    | nil => exact ⟨rfl, (List.cons.inj h).2⟩
    | cons b bs => exact absurd h.symm (hopen (hbs b List.mem_cons_self))
  | cons a as ih =>
    obtain ⟨⟨ha, hdelimited⟩, has⟩ := List.forall_mem_cons.mp has
    cases bs with
    | nil => exact absurd h (hopen ha)
    | cons b bs =>
      obtain ⟨hb, hbs⟩ := List.forall_mem_cons.mp hbs
      rw [List.map_cons, List.map_cons, separated_cons_append, separated_cons_append] at h
      obtain ⟨hmark, hrest⟩ := hdelimited b hb _ _ (separated_rest hends _ _)
        (separated_rest hends _ _) (List.append_cancel_left h)
      obtain ⟨hmarks, hrests⟩ := ih has hbs hrest
      rw [List.map_cons, List.map_cons, hmark, hmarks]
      exact ⟨rfl, hrests⟩

end

end LicoArc
