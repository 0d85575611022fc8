import LicoArc.CanonicalText

/-!
# Injectivity of canonical text

A canonical text tells the value that it was written from, up to the
representation of its integers. The order in which the members of an object
were inserted leaves no trace.
-/

namespace LicoArc

namespace Json

/-! ## Values up to the representation of their integers -/

namespace Number

def Integral : Number → Prop
  | .integer _ => True
  | .float value => value.den = 1

/-- The number with an integral double as the integer. -/
def integral : Number → Number
  | .integer value => .integer value
  | .float value => if value.den = 1 then .integer value.num else .float value

def IsInteger : Number → Prop
  | .integer _ => True
  | .float _ => False

theorem IsInteger.integral {n : Number} (h : n.IsInteger) : n.Integral := by
  cases n with
  | integer value => trivial
  | float value => cases h

theorem integral_of_isInteger {n : Number} (h : n.IsInteger) : n.integral = n := by
  cases n with
  | integer value => rfl
  | float value => cases h

end Number

namespace Value

mutual

def integral : Value → Value
  | .null => .null
  | .bool value => .bool value
  | .number n => .number n.integral
  | .string text => .string text
  | .array values => .array (integralItems values)
  | .object entries => .object (integralEntries entries)

def integralItems : List Value → List Value
  | [] => []
  | value :: values => value.integral :: integralItems values

def integralEntries : List (String × Value) → List (String × Value)
  | [] => []
  | (key, value) :: entries => (key, value.integral) :: integralEntries entries

end

theorem integralItems_eq (values : List Value) : integralItems values = values.map integral := by
  induction values with
  | nil => rfl
  | cons value values ih => rw [integralItems, ih, List.map_cons]

def integralEntry (entry : String × Value) : String × Value := (entry.1, entry.2.integral)

theorem integralEntries_eq (entries : List (String × Value)) :
    integralEntries entries = entries.map integralEntry := by
  induction entries with
  | nil => rfl
  | cons entry entries ih =>
    rw [integralEntries, ih, List.map_cons]
    rfl

theorem integralEntries_names (entries : List (String × Value)) :
    (entries.map integralEntry).map Prod.fst = entries.map Prod.fst := by
  rw [List.map_map]
  rfl

mutual

theorem integral_of_isInteger : ∀ {value : Value}, value.Numbers Number.IsInteger →
    value.integral = value
  | .null, _ | .bool _, _ | .string _, _ => rfl
  | .number n, h => by
    rw [Numbers] at h
    rw [integral, Number.integral_of_isInteger h]
  | .array values, h => by
    rw [numbers_array] at h
    rw [integral, integralItems_of_isInteger values h]
  | .object entries, h => by
    rw [numbers_object] at h
    rw [integral, integralEntries_of_isInteger entries h]

theorem integralItems_of_isInteger : ∀ (values : List Value),
    (∀ value ∈ values, value.Numbers Number.IsInteger) → integralItems values = values
  | [], _ => rfl
  | value :: values, h => by
    obtain ⟨hvalue, hvalues⟩ := List.forall_mem_cons.mp h
    rw [integralItems, integral_of_isInteger hvalue, integralItems_of_isInteger values hvalues]

theorem integralEntries_of_isInteger : ∀ (entries : List (String × Value)),
    (∀ entry ∈ entries, entry.2.Numbers Number.IsInteger) → integralEntries entries = entries
  | [], _ => rfl
  | (key, value) :: entries, h => by
    obtain ⟨hvalue, hvalues⟩ := List.forall_mem_cons.mp h
    rw [integralEntries, integral_of_isInteger hvalue, integralEntries_of_isInteger entries hvalues]

end

end Value

/-! ## Values of one text -/

section Injectivity

inductive Shape
  | null
  | bool (value : Bool)
  | number
  | string
  | array
  | object

def Value.shape : Value → Shape
  | .null => .null
  | .bool value => .bool value
  | .number _ => .number
  | .string _ => .string
  | .array _ => .array
  | .object _ => .object

def shapeAt (c : Char) : Shape :=
  if isNumeral c then .number
  else if c = 'n' then .null
  else if c = 't' then .bool true
  else if c = 'f' then .bool false
  else if c = '"' then .string
  else if c = '[' then .array
  else .object

/-- The text of the number is the safe integer that it is. -/
def Decimal (formatFinite : Rat → String) (number : Number) : Prop :=
  ∃ value : Int, value.natAbs ≤ maxInteger ∧
    canonicalNumber formatFinite number = some (toString value) ∧ number.integral = .integer value

/-- An ordered value of integers. -/
structure Regular (formatFinite : Rat → String) (value : Value) : Prop where
  numbers : value.Numbers (Decimal formatFinite)
  ordered : value.Ordered

variable {formatFinite : Rat → String}

theorem regular_array {values : List Value} : Regular formatFinite (.array values) ↔
    ∀ value ∈ values, Regular formatFinite value := by
  constructor
  · rintro ⟨hnumbers, hordered⟩ value hvalue
    exact ⟨Value.numbers_array.mp hnumbers value hvalue,
      Value.ordered_array.mp hordered value hvalue⟩
  · intro h
    exact ⟨Value.numbers_array.mpr fun value hvalue => (h value hvalue).numbers,
      Value.ordered_array.mpr fun value hvalue => (h value hvalue).ordered⟩

theorem regular_object {entries : List (String × Value)} : Regular formatFinite (.object entries) ↔
    (entries.map Prod.fst).Pairwise (· < ·) ∧ ∀ entry ∈ entries, Regular formatFinite entry.2 := by
  constructor
  · rintro ⟨hnumbers, hordered⟩
    obtain ⟨hnames, hordered⟩ := Value.ordered_object.mp hordered
    exact ⟨hnames, fun entry hentry =>
      ⟨Value.numbers_object.mp hnumbers entry hentry, hordered entry hentry⟩⟩
  · rintro ⟨hnames, h⟩
    exact ⟨Value.numbers_object.mpr fun entry hentry => (h entry hentry).numbers,
      Value.ordered_object.mpr ⟨hnames, fun entry hentry => (h entry hentry).ordered⟩⟩

theorem canonicalText_number {n : Number} {value : Int}
    (h : canonicalNumber formatFinite n = some (toString value)) :
    canonicalText formatFinite (.number n) = (toString value).toList := by
  rw [canonicalText, h, Option.getD_some]

theorem toString_ne_nil (value : Int) : (toString value).toList ≠ [] := by
  cases value with
  | ofNat n =>
    change (toString n).toList ≠ []
    rw [Nat.toString_eq_ofList_toDigits, String.toList_ofList]
    exact Nat.toDigits_ne_nil
  | negSucc n =>
    change ("-" ++ toString (n + 1)).toList ≠ []
    rw [String.toList_append]
    exact List.cons_ne_nil _ _

theorem canonicalText_shape : ∀ {value : Value}, Regular formatFinite value →
    ∃ c rest, canonicalText formatFinite value = c :: rest ∧ shapeAt c = value.shape ∧ c ≠ ']'
  | .null, _ => ⟨'n', _, rfl, rfl, by decide⟩
  | .bool true, _ => ⟨'t', _, rfl, rfl, by decide⟩
  | .bool false, _ => ⟨'f', _, rfl, rfl, by decide⟩
  | .string _, _ => ⟨'"', _, String.toList_ofList, rfl, by decide⟩
  | .array _, _ => ⟨'[', _, rfl, rfl, by decide⟩
  | .object _, _ => ⟨'\x7b', _, rfl, rfl, by decide⟩
  | .number n, h => by
    have hnumber := h.numbers
    rw [Value.Numbers] at hnumber
    obtain ⟨value, _, htext, _⟩ := hnumber
    rw [canonicalText_number htext]
    have hnumeral := isNumeral_of_mem_toString value
    cases hchars : (toString value).toList with
    | nil => exact absurd hchars (toString_ne_nil value)
    | cons c rest =>
      have hc : isNumeral c = true := hnumeral c (hchars ▸ List.mem_cons_self)
      refine ⟨c, rest, rfl, if_pos hc, ?_⟩
      rintro rfl
      exact absurd hc (by decide)

theorem shape_eq {value other : Value} (h : Regular formatFinite value)
    (hother : Regular formatFinite other) {rest rest' : List Char}
    (htext : canonicalText formatFinite value ++ rest = canonicalText formatFinite other ++ rest') :
    value.shape = other.shape := by
  obtain ⟨c, text, hc, hshape, _⟩ := canonicalText_shape h
  obtain ⟨d, text', hd, hshape', _⟩ := canonicalText_shape hother
  rw [hc, hd] at htext
  rw [← hshape, ← hshape', (List.cons.inj htext).1]

theorem stops_delimiter {close : Char} (hclose : isNumeral close = false) (c : Char)
    (h : c = ',' ∨ c = close) (rest : List Char) : Stops isNumeral (c :: rest) := by
  intro d hd
  obtain rfl := Option.some.inj hd
  rcases h with rfl | rfl
  · rfl
  · exact hclose

theorem integral_object_eq {entries others : List (String × Value)}
    (h : (entries.map Prod.fst).Pairwise (· < ·)) (h' : (others.map Prod.fst).Pairwise (· < ·))
    (hsorted : (sortEntries entries).map Value.integralEntry =
      (sortEntries others).map Value.integralEntry) :
    (Value.object entries).integral = (Value.object others).integral := by
  have hperm : (entries.map Value.integralEntry).Perm (others.map Value.integralEntry) :=
    (((sortEntries_perm entries).symm.map _).trans (List.Perm.of_eq hsorted)).trans
      ((sortEntries_perm others).map _)
  rw [Value.integral, Value.integral, Value.integralEntries_eq, Value.integralEntries_eq]
  rw [← Value.integralEntries_names, List.pairwise_map] at h h'
  exact congrArg Value.object (eq_of_pairwise_lt h h' fun entry => hperm.mem_iff)

theorem entryText_delimited {entry : String × Value}
    (h : Delimited (canonicalText formatFinite) Value.integral (Regular formatFinite)
      (Stops isNumeral) entry.2) :
    Delimited (entryText formatFinite) Value.integralEntry
      (fun entry => Regular formatFinite entry.2) (Stops isNumeral) entry := by
  intro other hother rest rest' hrest hrest' htext
  simp only [entryText, memberText, List.append_assoc, List.cons_append] at htext
  obtain ⟨hname, htail⟩ := quoted_delimited entry.1 other.1 trivial _ _ trivial trivial htext
  obtain ⟨hvalue, hends⟩ := h other.2 hother rest rest' hrest hrest' (List.cons.inj htail).2
  exact ⟨Prod.ext hname hvalue, hends⟩

theorem array_delimited {values : List Value}
    (hvalues : ∀ value ∈ values, Regular formatFinite value ∧
      Delimited (canonicalText formatFinite) Value.integral (Regular formatFinite) (Stops isNumeral)
        value) {others : List Value} (hothers : ∀ other ∈ others, Regular formatFinite other)
    {rest rest' : List Char}
    (h : canonicalText formatFinite (.array values) ++ rest =
      canonicalText formatFinite (.array others) ++ rest') :
    (Value.array values).integral = (Value.array others).integral ∧ rest = rest' := by
  rw [canonicalText_array, canonicalText_array, List.cons_append, List.cons_append,
    List.append_assoc, List.append_assoc] at h
  obtain ⟨hitems, hends⟩ := separated_inj (by decide) (stops_delimiter (by decide))
    (fun value hvalue => by
      obtain ⟨c, text, htext, _, hclose⟩ := canonicalText_shape hvalue
      exact ⟨c, text, htext, hclose⟩)
    hvalues hothers (List.cons.inj h).2
  rw [Value.integral, Value.integral, Value.integralItems_eq, Value.integralItems_eq, hitems]
  exact ⟨rfl, hends⟩

theorem object_delimited {entries : List (String × Value)}
    (hnames : (entries.map Prod.fst).Pairwise (· < ·))
    (hentries : ∀ entry ∈ entries, Regular formatFinite entry.2 ∧
      Delimited (canonicalText formatFinite) Value.integral (Regular formatFinite) (Stops isNumeral)
        entry.2) {others : List (String × Value)}
    (hothers : Regular formatFinite (.object others)) {rest rest' : List Char}
    (h : canonicalText formatFinite (.object entries) ++ rest =
      canonicalText formatFinite (.object others) ++ rest') :
    (Value.object entries).integral = (Value.object others).integral ∧ rest = rest' := by
  obtain ⟨hnames', hothers⟩ := regular_object.mp hothers
  rw [canonicalText_object, canonicalText_object, List.cons_append, List.cons_append,
    List.append_assoc, List.append_assoc] at h
  obtain ⟨hmembers, hends⟩ := separated_inj (by decide) (stops_delimiter (by decide))
    (fun entry _ => ⟨'"', _, congrArg (· ++ _) String.toList_ofList, by decide⟩)
    (fun entry hentry => by
      obtain ⟨hregular, hdelimited⟩ := hentries entry ((sortEntries_perm entries).mem_iff.mp hentry)
      exact ⟨hregular, entryText_delimited hdelimited⟩)
    (fun entry hentry => hothers entry ((sortEntries_perm others).mem_iff.mp hentry))
    (List.cons.inj h).2
  exact ⟨integral_object_eq hnames hnames' hmembers, hends⟩

mutual

theorem canonicalText_delimited : ∀ {value : Value}, Regular formatFinite value →
    Delimited (canonicalText formatFinite) Value.integral (Regular formatFinite) (Stops isNumeral)
      value
  | .null, h => by
    intro other hother rest rest' _ _ htext
    have hshape := shape_eq h hother htext
    cases other <;> cases hshape
    exact ⟨rfl, List.append_cancel_left htext⟩
  | .bool value, h => by
    intro other hother rest rest' _ _ htext
    have hshape := shape_eq h hother htext
    cases other <;> cases hshape
    exact ⟨rfl, List.append_cancel_left htext⟩
  | .number n, h => by
    intro other hother rest rest' hrest hrest' htext
    have hshape := shape_eq h hother htext
    cases other <;> cases hshape
    have hnumber := h.numbers
    have hother := hother.numbers
    rw [Value.Numbers] at hnumber hother
    obtain ⟨value, _, hvalue, hinteger⟩ := hnumber
    obtain ⟨value', _, hvalue', hinteger'⟩ := hother
    rw [canonicalText_number hvalue, canonicalText_number hvalue'] at htext
    obtain ⟨hsame, hends⟩ := integer_delimited value value' trivial rest rest' hrest hrest' htext
    rw [Value.integral, Value.integral, hinteger, hinteger']
    exact ⟨congrArg (fun value => Value.number (.integer value)) hsame, hends⟩
  | .string text, h => by
    intro other hother rest rest' _ _ htext
    have hshape := shape_eq h hother htext
    cases other <;> cases hshape
    obtain ⟨hsame, hends⟩ := quoted_delimited text _ trivial rest rest' trivial trivial htext
    exact ⟨congrArg Value.string hsame, hends⟩
  | .array values, h => by
    intro other hother rest rest' _ _ htext
    have hshape := shape_eq h hother htext
    cases other <;> cases hshape
    exact array_delimited (itemTexts_delimited values (regular_array.mp h))
      (regular_array.mp hother) htext
  | .object entries, h => by
    intro other hother rest rest' _ _ htext
    have hshape := shape_eq h hother htext
    cases other <;> cases hshape
    obtain ⟨hnames, hentries⟩ := regular_object.mp h
    exact object_delimited hnames (entryTexts_delimited entries hentries) hother htext

theorem itemTexts_delimited : ∀ (values : List Value),
    (∀ value ∈ values, Regular formatFinite value) → ∀ value ∈ values,
      Regular formatFinite value ∧ Delimited (canonicalText formatFinite) Value.integral
        (Regular formatFinite) (Stops isNumeral) value
  | [], _ => nofun
  | value :: values, h => by
    obtain ⟨hvalue, hvalues⟩ := List.forall_mem_cons.mp h
    exact List.forall_mem_cons.mpr
      ⟨⟨hvalue, canonicalText_delimited hvalue⟩, itemTexts_delimited values hvalues⟩

theorem entryTexts_delimited : ∀ (entries : List (String × Value)),
    (∀ entry ∈ entries, Regular formatFinite entry.2) → ∀ entry ∈ entries,
      Regular formatFinite entry.2 ∧ Delimited (canonicalText formatFinite) Value.integral
        (Regular formatFinite) (Stops isNumeral) entry.2
  | [], _ => nofun
  | (_, value) :: entries, h => by
    obtain ⟨hvalue, hentries⟩ := List.forall_mem_cons.mp h
    exact List.forall_mem_cons.mpr
      ⟨⟨hvalue, canonicalText_delimited hvalue⟩, entryTexts_delimited entries hentries⟩

end

mutual

theorem canonicalText_integral : ∀ {value : Value}, value.Numbers (Decimal formatFinite) →
    canonicalText formatFinite value.integral = canonicalText formatFinite value
  | .null, _ | .bool _, _ | .string _, _ => rfl
  | .number n, h => by
    rw [Value.Numbers] at h
    obtain ⟨value, hsafe, htext, hinteger⟩ := h
    have hvalue : canonicalNumber formatFinite (.integer value) = some (toString value) :=
      if_pos hsafe
    rw [Value.integral, hinteger, canonicalText_number hvalue, canonicalText_number htext]
  | .array values, h => by
    rw [Value.integral, canonicalText, canonicalText,
      itemTexts_integral values (Value.numbers_array.mp h)]
  | .object entries, h => by
    rw [Value.integral, canonicalText, canonicalText,
      entryTexts_integral entries (Value.numbers_object.mp h)]

theorem itemTexts_integral : ∀ (values : List Value),
    (∀ value ∈ values, value.Numbers (Decimal formatFinite)) →
      itemTexts formatFinite (Value.integralItems values) = itemTexts formatFinite values
  | [], _ => rfl
  | value :: values, h => by
    obtain ⟨hvalue, hvalues⟩ := List.forall_mem_cons.mp h
    rw [Value.integralItems, itemTexts, itemTexts, canonicalText_integral hvalue,
      itemTexts_integral values hvalues]

theorem entryTexts_integral : ∀ (entries : List (String × Value)),
    (∀ entry ∈ entries, entry.2.Numbers (Decimal formatFinite)) →
      entryTexts formatFinite (Value.integralEntries entries) = entryTexts formatFinite entries
  | [], _ => rfl
  | (_, value) :: entries, h => by
    obtain ⟨hvalue, hentries⟩ := List.forall_mem_cons.mp h
    rw [Value.integralEntries, entryTexts, entryTexts, canonicalText_integral hvalue,
      entryTexts_integral entries hentries]

end

/-- An integral number that has a text, where integral doubles print as integers. -/
theorem decimal_of_printable
    (hformat : ∀ value : Int, value ≠ 0 → value.natAbs ≤ maxInteger →
      formatFinite value = toString value) {n : Number} (h : Printable formatFinite n)
    (hintegral : n.Integral) : Decimal formatFinite n := by
  cases n with
  | integer value =>
    by_cases hsafe : value.natAbs ≤ maxInteger
    · exact ⟨value, hsafe, if_pos hsafe, rfl⟩
    · rw [Printable, canonicalNumber, if_neg hsafe] at h
      cases h
  | float value =>
    rw [Number.Integral] at hintegral
    by_cases hsafe : |value| ≤ maxInteger
    · have hvalue : ((value.num : Int) : Rat) = value := Rat.coe_int_num_of_den_eq_one hintegral
      have hbound : value.num.natAbs ≤ maxInteger := by
        rw [← hvalue] at hsafe
        zify
        exact_mod_cast hsafe
      refine ⟨value.num, hbound, ?_, if_pos hintegral⟩
      rw [canonicalNumber, if_pos (.inr hsafe)]
      split_ifs with hzero
      · rw [hzero]
        rfl
      · have hnum : value.num ≠ 0 := by rwa [ne_eq, Rat.num_eq_zero]
        rw [← hformat value.num hnum hbound, hvalue]
    · rw [Printable, canonicalNumber, if_neg (not_or.mpr ⟨not_not.mpr hintegral, hsafe⟩)] at h
      cases h

theorem text_eq_iff
    (hformat : ∀ value : Int, value ≠ 0 → value.natAbs ≤ maxInteger →
      formatFinite value = toString value) {value other : Value} {text text' : String}
    (h : value.Ordered) (hother : other.Ordered) (hnumbers : value.Numbers Number.Integral)
    (hnumbers' : other.Numbers Number.Integral)
      (htext : canonicalJson formatFinite value = .ok text)
    (htext' : canonicalJson formatFinite other = .ok text') :
    text = text' ↔ value.integral = other.integral := by
  obtain ⟨hprintable, hchars⟩ := canonicalJson_text htext
  obtain ⟨hprintable', hchars'⟩ := canonicalJson_text htext'
  have hdecimal := Value.Numbers.imp₂ (fun _ => decimal_of_printable hformat) hprintable hnumbers
  have hdecimal' := Value.Numbers.imp₂ (fun _ => decimal_of_printable hformat) hprintable' hnumbers'
  rw [← String.toList_inj, hchars, hchars']
  constructor
  · intro hsame
    have hends : Stops isNumeral [] := nofun
    exact (canonicalText_delimited ⟨hdecimal, h⟩ other ⟨hdecimal', hother⟩ [] [] hends hends
      (congrArg (· ++ []) hsame)).1
  · intro hsame
    rw [← canonicalText_integral hdecimal, hsame, canonicalText_integral hdecimal']

end Injectivity

/-! ## The order of insertion -/

namespace Tree

/-- One object of the tree, at any depth, has its members inserted in another order. -/
inductive Reorders : Tree → Tree → Prop
  | members {members others : List (String × Tree)} (hperm : members.Perm others) :
    Reorders (.object members) (.object others)
  | item {before after : List Tree} {tree other : Tree} (h : Reorders tree other) :
    Reorders (.array (before ++ tree :: after)) (.array (before ++ other :: after))
  | member {before after : List (String × Tree)} {key : String} {tree other : Tree}
    (h : Reorders tree other) :
    Reorders (.object (before ++ (key, tree) :: after)) (.object (before ++ (key, other) :: after))

theorem distinct_array {trees : List Tree} :
    (array trees).Distinct ↔ ∀ tree ∈ trees, tree.Distinct := by
  rw [Distinct]
  induction trees with
  | nil => simp [DistinctItems]
  | cons tree trees ih => rw [DistinctItems, ih, List.forall_mem_cons]

theorem distinct_object {members : List (String × Tree)} : (object members).Distinct ↔
    (members.map Prod.fst).Nodup ∧ ∀ member ∈ members, member.2.Distinct := by
  have hmembers : DistinctMembers members ↔ ∀ member ∈ members, member.2.Distinct := by
    induction members with
    | nil => simp [DistinctMembers]
    | cons member members ih => rw [DistinctMembers, ih, List.forall_mem_cons]
  rw [Distinct, hmembers]

theorem value_of_reorders {tree other : Tree} (h : Reorders tree other)
    (hdistinct : tree.Distinct) :
    other.Distinct ∧ tree.value = other.value := by
  induction h with
  | members hperm =>
    obtain ⟨hnodup, hmembers⟩ := distinct_object.mp hdistinct
    refine ⟨distinct_object.mpr ⟨(hperm.map Prod.fst).nodup_iff.mp hnodup, fun member hmember =>
      hmembers member (hperm.mem_iff.mpr hmember)⟩, ?_⟩
    rw [value, value, memberValues_eq, memberValues_eq]
    refine congrArg Value.object (Map.ofMembers_eq (hperm.map _) ?_)
    rwa [← memberValues_eq, memberValues_names]
  | @item before after tree other _ ih =>
    have hitems := distinct_array.mp hdistinct
    obtain ⟨hother, hvalue⟩ := ih (hitems tree (by simp))
    refine ⟨distinct_array.mpr fun item hitem => ?_, ?_⟩
    · rcases List.mem_append.mp hitem with hitem | hitem
      · exact hitems item (List.mem_append_left _ hitem)
      · rcases List.mem_cons.mp hitem with rfl | hitem
        · exact hother
        · exact hitems item (List.mem_append_right _ (List.mem_cons_of_mem _ hitem))
    · rw [value, value, itemValues_eq, itemValues_eq, List.map_append, List.map_append,
        List.map_cons, List.map_cons, hvalue]
  | @member before after key tree other _ ih =>
    obtain ⟨hnodup, hmembers⟩ := distinct_object.mp hdistinct
    obtain ⟨hother, hvalue⟩ := ih (hmembers (key, tree) (by simp))
    refine ⟨distinct_object.mpr ⟨?_, fun entry hentry => ?_⟩, ?_⟩
    · rwa [List.map_append, List.map_cons] at hnodup ⊢
    · rcases List.mem_append.mp hentry with hentry | hentry
      · exact hmembers entry (List.mem_append_left _ hentry)
      · rcases List.mem_cons.mp hentry with rfl | hentry
        · exact hother
        · exact hmembers entry (List.mem_append_right _ (List.mem_cons_of_mem _ hentry))
    · rw [value, value, memberValues_eq, memberValues_eq, List.map_append, List.map_append,
        List.map_cons, List.map_cons, hvalue]

theorem value_of_reordered {tree other : Tree} (h : Relation.ReflTransGen Reorders tree other)
    (hdistinct : tree.Distinct) : other.Distinct ∧ tree.value = other.value := by
  induction h with
  | refl => exact ⟨hdistinct, rfl⟩
  | tail _ hstep ih =>
    obtain ⟨hdistinct, hvalue⟩ := ih
    obtain ⟨hdistinct, hstep⟩ := value_of_reorders hstep hdistinct
    exact ⟨hdistinct, hvalue.trans hstep⟩

end Tree

/-- The canonical text of values of integers is injective, and it does not depend on the order in
which the members of the objects were inserted. -/
theorem canonicalJson_injective {formatFinite : Rat → String}
    (hformat : ∀ value : Int, value ≠ 0 → value.natAbs ≤ maxInteger →
      formatFinite value = toString value) :
    (∀ {value other : Value} {text text' : String}, value.Ordered → other.Ordered →
      value.Numbers Number.Integral → other.Numbers Number.Integral →
      canonicalJson formatFinite value = .ok text → canonicalJson formatFinite other = .ok text' →
      (text = text' ↔ value.integral = other.integral)) ∧
    (∀ {value other : Value} {text text' : String}, value.Ordered → other.Ordered →
      value.Numbers Number.IsInteger → other.Numbers Number.IsInteger →
      canonicalJson formatFinite value = .ok text → canonicalJson formatFinite other = .ok text' →
      (text = text' ↔ value = other)) ∧
    ∀ {tree other : Tree}, tree.Distinct → Relation.ReflTransGen Tree.Reorders tree other →
      canonicalJson formatFinite tree.value = canonicalJson formatFinite other.value := by
  refine ⟨fun h hother => text_eq_iff hformat h hother, ?_, ?_⟩
  · intro value other text text' h hother hnumbers hnumbers' htext htext'
    rw [text_eq_iff hformat h hother (hnumbers.imp fun _ => Number.IsInteger.integral)
      (hnumbers'.imp fun _ => Number.IsInteger.integral) htext htext',
      Value.integral_of_isInteger hnumbers, Value.integral_of_isInteger hnumbers']
  · intro tree other hdistinct hreordered
    rw [(Tree.value_of_reordered hreordered hdistinct).2]

namespace TwoMembers

def print (value : Rat) : String := toString value.num

def integers : Tree := .object [("b", .array [.signed 2, .null]), ("a", .unsigned 1)]

def reordered : Tree := .object [("a", .unsigned 1), ("b", .array [.signed 2, .null])]

def doubled : Tree := .object [("a", .double (.finite 1)), ("b", .array [.signed 2, .null])]

theorem integers_value : integers.value =
    .object [("a", .number (.integer 1)), ("b", .array [.number (.integer 2), .null])] := rfl

theorem doubled_value : doubled.value =
    .object [("a", .number (.float 1)), ("b", .array [.number (.integer 2), .null])] := rfl

theorem integers_distinct : integers.Distinct := by
  simp [integers, Tree.Distinct, Tree.DistinctMembers, Tree.DistinctItems]

end TwoMembers

open TwoMembers in
/-- The text of an object with two members tells its integers, as integers or as doubles, and not
the order of its members. -/
theorem canonicalJson_injective_of_members :
    integers.value.integral = doubled.value.integral ∧ integers.value = reordered.value ∧
      canonicalJson print integers.value = canonicalJson print reordered.value := by
  obtain ⟨hintegral, hinteger, hreordered⟩ := @canonicalJson_injective print
    fun value _ _ => by rw [print, Rat.num_intCast]
  have hmembers : integers.value.Numbers Number.IsInteger := by
    simp [integers_value, Value.Numbers, Value.ItemNumbers, Value.EntryNumbers, Number.IsInteger]
  have hdoubled : doubled.value.Numbers Number.Integral := by
    simp [doubled_value, Value.Numbers, Value.ItemNumbers, Value.EntryNumbers, Number.Integral]
  refine ⟨?_, ?_, hreordered integers_distinct (.single (.members (.swap _ _ _)))⟩
  · exact (hintegral (Tree.value_ordered _) (Tree.value_ordered _)
      (hmembers.imp fun _ => Number.IsInteger.integral) hdoubled rfl rfl).mp rfl
  · exact (hinteger (Tree.value_ordered _) (Tree.value_ordered _) hmembers hmembers rfl rfl).mp rfl

end Json

end LicoArc
