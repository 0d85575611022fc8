import LicoArc.JsonSource
import LicoArc.SelfDelimiting

/-!
# Canonical text

The text that the canonical writer appends where its limit admits it, as a list
of characters. Its string literals and its integers tell what they stand for and
where they end.
-/

namespace LicoArc

namespace Json

namespace Value

mutual

def Numbers (property : Number → Prop) : Value → Prop
  | .null | .bool _ | .string _ => True
  | .number n => property n
  | .array values => ItemNumbers property values
  | .object entries => EntryNumbers property entries

def ItemNumbers (property : Number → Prop) : List Value → Prop
  | [] => True
  | value :: values => value.Numbers property ∧ ItemNumbers property values

def EntryNumbers (property : Number → Prop) : List (String × Value) → Prop
  | [] => True
  | (_, value) :: entries => value.Numbers property ∧ EntryNumbers property entries

end

variable {p q r : Number → Prop}

theorem numbers_array {values : List Value} :
    (array values).Numbers p ↔ ∀ value ∈ values, value.Numbers p := by
  rw [Numbers]
  induction values with
  | nil => simp [ItemNumbers]
  | cons value values ih => rw [ItemNumbers, ih, List.forall_mem_cons]

theorem numbers_object {entries : List (String × Value)} :
    (object entries).Numbers p ↔ ∀ entry ∈ entries, entry.2.Numbers p := by
  rw [Numbers]
  induction entries with
  | nil => simp [EntryNumbers]
  | cons entry entries ih => rw [EntryNumbers, ih, List.forall_mem_cons]

mutual

theorem Numbers.imp₂ (himp : ∀ n, p n → q n → r n) : ∀ {value : Value},
    value.Numbers p → value.Numbers q → value.Numbers r
  | .null, _, _ | .bool _, _, _ | .string _, _, _ => by rw [Numbers]; trivial
  | .number n, hp, hq => by
    rw [Numbers] at hp hq ⊢
    exact himp n hp hq
  | .array values, hp, hq => by
    rw [numbers_array] at hp hq ⊢
    exact items_imp₂ himp values hp hq
  | .object entries, hp, hq => by
    rw [numbers_object] at hp hq ⊢
    exact entries_imp₂ himp entries hp hq

theorem items_imp₂ (himp : ∀ n, p n → q n → r n) : ∀ (values : List Value),
    (∀ value ∈ values, value.Numbers p) → (∀ value ∈ values, value.Numbers q) →
      ∀ value ∈ values, value.Numbers r
  | [], _, _ => nofun
  | value :: values, hp, hq => by
    obtain ⟨hp, hps⟩ := List.forall_mem_cons.mp hp
    obtain ⟨hq, hqs⟩ := List.forall_mem_cons.mp hq
    exact List.forall_mem_cons.mpr ⟨Numbers.imp₂ himp hp hq, items_imp₂ himp values hps hqs⟩

theorem entries_imp₂ (himp : ∀ n, p n → q n → r n) :
    ∀ (entries : List (String × Value)), (∀ entry ∈ entries, entry.2.Numbers p) →
      (∀ entry ∈ entries, entry.2.Numbers q) → ∀ entry ∈ entries, entry.2.Numbers r
  | [], _, _ => nofun
  | (_, value) :: entries, hp, hq => by
    obtain ⟨hp, hps⟩ := List.forall_mem_cons.mp hp
    obtain ⟨hq, hqs⟩ := List.forall_mem_cons.mp hq
    exact List.forall_mem_cons.mpr ⟨Numbers.imp₂ himp hp hq, entries_imp₂ himp entries hps hqs⟩

end

theorem Numbers.imp (himp : ∀ n, p n → q n) {value : Value} (h : value.Numbers p) :
    value.Numbers q := Numbers.imp₂ (fun n hn _ => himp n hn) h h

end Value

/-! ## The text of a value -/

section Text

variable (formatFinite : Rat → String)

def memberText (entry : String × List Char) : List Char :=
  (quoted entry.1).toList ++ ':' :: entry.2

mutual

/-- The canonical text of a value, with no limit on its length. -/
def canonicalText : Value → List Char
  | .null => "null".toList
  | .bool value => if value then "true".toList else "false".toList
  | .number number => ((canonicalNumber formatFinite number).getD "").toList
  | .string text => (quoted text).toList
  | .array values => '[' :: (separated ',' true (itemTexts values) ++ [']'])
  | .object entries =>
    '\x7b' :: (separated ',' true ((sortEntries (entryTexts entries)).map memberText) ++ ['\x7d'])

def itemTexts : List Value → List (List Char)
  | [] => []
  | value :: values => canonicalText value :: itemTexts values

def entryTexts : List (String × Value) → List (String × List Char)
  | [] => []
  | (key, value) :: entries => (key, canonicalText value) :: entryTexts entries

end

theorem itemTexts_eq (values : List Value) :
    itemTexts formatFinite values = values.map (canonicalText formatFinite) := by
  induction values with
  | nil => rfl
  | cons value values ih => rw [itemTexts, ih, List.map_cons]

theorem entryTexts_eq (entries : List (String × Value)) : entryTexts formatFinite entries =
    entries.map fun entry => (entry.1, canonicalText formatFinite entry.2) := by
  induction entries with
  | nil => rfl
  | cons entry entries ih => rw [entryTexts, ih, List.map_cons]

def entryText (entry : String × Value) : List Char :=
  memberText (entry.1, canonicalText formatFinite entry.2)

theorem canonicalText_array (values : List Value) : canonicalText formatFinite (.array values) =
    '[' :: (separated ',' true (values.map (canonicalText formatFinite)) ++ [']']) := by
  rw [canonicalText, itemTexts_eq]

theorem canonicalText_object (entries : List (String × Value)) :
    canonicalText formatFinite (.object entries) =
      '\x7b' :: (separated ',' true ((sortEntries entries).map (entryText formatFinite)) ++
        ['\x7d']) := by
  rw [canonicalText, entryTexts_eq, sortEntries_map (canonicalText formatFinite),
    List.map_map]
  rfl

end Text

/-! ## What the writer appends -/

section Writer

variable {formatFinite : Rat → String} {maximum : Nat}

/-- A writer that appends the text where it succeeds, which it does on the condition alone. -/
def Appends (condition : Prop) (append : String → Except Error String) (text : List Char) : Prop :=
  ∀ output result, append output = .ok result →
    condition ∧ result.toList = output.toList ++ text

theorem appends_push (value : String) :
    Appends True (fun output => pushBounded maximum output value) value.toList := by
  intro output result h
  simp only [pushBounded] at h
  split_ifs at h
  rw [← Except.ok.inj h]
  exact ⟨trivial, String.toList_append⟩

theorem Appends.bind {p q : Prop} {first second : String → Except Error String}
    {text text' : List Char} (hfirst : Appends p first text) (hsecond : Appends q second text') :
    Appends (p ∧ q) (fun output => first output >>= second) (text ++ text') := by
  intro output result h
  obtain ⟨middle, hmiddle, hrest⟩ := Except.bind_eq_ok.mp h
  obtain ⟨hp, htext⟩ := hfirst output middle hmiddle
  obtain ⟨hq, htext'⟩ := hsecond middle result hrest
  rw [htext', htext, List.append_assoc]
  exact ⟨⟨hp, hq⟩, rfl⟩

theorem Appends.imp {p q : Prop} {append : String → Except Error String} {text : List Char}
    (h : Appends p append text) (himp : p → q) : Appends q append text := by
  intro output result hresult
  obtain ⟨hp, htext⟩ := h output result hresult
  exact ⟨himp hp, htext⟩

theorem appends_nil : Appends True .ok [] := by
  intro output result h
  rw [← Except.ok.inj h, List.append_nil]
  exact ⟨trivial, rfl⟩

theorem appends_separate (maximum : Nat) (first : Bool) :
    Appends True (separate maximum first) (if first then [] else [',']) := by
  cases first with
  | true => exact appends_nil
  | false => exact appends_push ","

def Printable (formatFinite : Rat → String) (number : Number) : Prop :=
  (canonicalNumber formatFinite number).isSome

theorem appendItems_appends {values : List Value}
    (h : ∀ value ∈ values, Appends (value.Numbers (Printable formatFinite))
      (appendCanonicalJson formatFinite maximum value) (canonicalText formatFinite value))
    (first : Bool) :
    Appends (∀ value ∈ values, value.Numbers (Printable formatFinite))
      (appendItems formatFinite maximum first values)
      (separated ',' first (values.map (canonicalText formatFinite))) := by
  induction values generalizing first with
  | nil => exact appends_nil.imp fun _ => nofun
  | cons value values ih =>
    obtain ⟨hvalue, hvalues⟩ := List.forall_mem_cons.mp h
    have hitems := (appends_separate maximum first).bind (hvalue.bind (ih hvalues false))
    exact hitems.imp fun hfacts => List.forall_mem_cons.mpr hfacts.2

theorem appendEntries_appends {entries : List (String × Value)}
    (h : ∀ entry ∈ entries, Appends (entry.2.Numbers (Printable formatFinite))
      (appendCanonicalJson formatFinite maximum entry.2) (canonicalText formatFinite entry.2))
    (first : Bool) :
    Appends (∀ entry ∈ entries, entry.2.Numbers (Printable formatFinite))
      (appendEntries maximum first (entries.map (memberAppender formatFinite maximum)))
      (separated ',' first (entries.map (entryText formatFinite))) := by
  induction entries generalizing first with
  | nil => exact appends_nil.imp fun _ => nofun
  | cons entry entries ih =>
    obtain ⟨hvalue, hvalues⟩ := List.forall_mem_cons.mp h
    have hname : Appends True (pushBounded maximum · (quoted entry.1)) (quoted entry.1).toList :=
      appends_push _
    have hcolon : Appends True (pushBounded maximum · ":") [':'] := appends_push _
    have hmember := (appends_separate maximum first).bind
      (hname.bind (hcolon.bind (hvalue.bind (ih hvalues false))))
    rw [List.map_cons, List.map_cons, separated, entryText, memberText, List.append_assoc]
    exact hmember.imp fun hfacts => List.forall_mem_cons.mpr hfacts.2.2.2

mutual

theorem appendCanonicalJson_appends : ∀ value : Value,
    Appends (value.Numbers (Printable formatFinite))
      (appendCanonicalJson formatFinite maximum value) (canonicalText formatFinite value)
  | .null => appends_push "null"
  | .bool value => by
    cases value with
    | false => exact appends_push "false"
    | true => exact appends_push "true"
  | .number number => by
    intro output result h
    rw [appendCanonicalJson, Except.bind_eq_ok] at h
    obtain ⟨text, htext, hpush⟩ := h
    rw [okOr_eq_ok] at htext
    rw [Value.Numbers, Printable, canonicalText, htext]
    exact ⟨rfl, (appends_push text output result hpush).2⟩
  | .string text => appends_push (quoted text)
  | .array values => by
    have hopen : Appends True (pushBounded maximum · "[") ['['] := appends_push _
    have hclose : Appends True (pushBounded maximum · "]") [']'] := appends_push _
    have hitems := appendItems_appends (appendCanonicalJson_items_appends values) true
    have harray := hopen.bind (hitems.bind hclose)
    rw [canonicalText_array, Value.numbers_array]
    exact harray.imp fun hfacts => hfacts.2.1
  | .object entries => by
    have hopen : Appends True (pushBounded maximum · "\x7b") ['\x7b'] := appends_push _
    have hclose : Appends True (pushBounded maximum · "\x7d") ['\x7d'] := appends_push _
    have hsorted := appendEntries_appends (fun entry hentry =>
      appendCanonicalJson_entries_appends entries entry
        ((sortEntries_perm entries).mem_iff.mp hentry)) true
    have hobject := hopen.bind (hsorted.bind hclose)
    rw [← sortEntries_appenders, ← entryAppenders_eq] at hobject
    rw [canonicalText_object, Value.numbers_object]
    exact hobject.imp fun hfacts entry hentry =>
      hfacts.2.1 entry ((sortEntries_perm entries).mem_iff.mpr hentry)

theorem appendCanonicalJson_items_appends : ∀ values : List Value, ∀ value ∈ values,
    Appends (value.Numbers (Printable formatFinite))
      (appendCanonicalJson formatFinite maximum value) (canonicalText formatFinite value)
  | [] => nofun
  | value :: values => List.forall_mem_cons.mpr
    ⟨appendCanonicalJson_appends value, appendCanonicalJson_items_appends values⟩

theorem appendCanonicalJson_entries_appends : ∀ entries : List (String × Value), ∀ entry ∈ entries,
    Appends (entry.2.Numbers (Printable formatFinite))
      (appendCanonicalJson formatFinite maximum entry.2) (canonicalText formatFinite entry.2)
  | [] => nofun
  | (_, value) :: entries => List.forall_mem_cons.mpr
    ⟨appendCanonicalJson_appends value, appendCanonicalJson_entries_appends entries⟩

end

/-- What the writer of a value returns, where it succeeds. -/
theorem canonicalJson_text {value : Value} {result : String}
    (h : canonicalJson formatFinite value = .ok result) :
    value.Numbers (Printable formatFinite) ∧ result.toList = canonicalText formatFinite value := by
  have happends := appendCanonicalJson_appends value "" result h
  rwa [String.toList_empty, List.nil_append] at happends

end Writer

/-! ## Delimited texts -/

section Strings

def hexDigitOf (digit : Char) : Nat := if digit.isDigit then digit.toNat - 48 else digit.toNat - 87

/-- The character that the head of a text stands for, and what follows it. -/
def unescape : List Char → Option (Char × List Char)
  | '\\' :: 'b' :: rest => some (Char.ofNat 8, rest)
  | '\\' :: 't' :: rest => some (Char.ofNat 9, rest)
  | '\\' :: 'n' :: rest => some (Char.ofNat 10, rest)
  | '\\' :: 'f' :: rest => some (Char.ofNat 12, rest)
  | '\\' :: 'r' :: rest => some (Char.ofNat 13, rest)
  | '\\' :: 'u' :: '0' :: '0' :: high :: low :: rest =>
    some (Char.ofNat (16 * hexDigitOf high + hexDigitOf low), rest)
  | '\\' :: c :: rest => some (c, rest)
  | c :: rest => some (c, rest)
  | [] => none

theorem hexDigitOf_digits : ∀ n < 32,
    16 * hexDigitOf (Nat.digitChar (n / 16)) + hexDigitOf (Nat.digitChar (n % 16)) = n := by decide

theorem unescape_escaped (c : Char) (rest : List Char) :
    unescape (escaped c ++ rest) = some (c, rest) := by
  have hcode {n : Nat} (h : c.toNat = n) : Char.ofNat n = c := by rw [← h, Char.ofNat_toNat]
  rw [escaped]
  split_ifs with hquote hslash hb ht hn hf hr hcontrol
  · rw [hquote]; rfl
  · rw [hslash]; rfl
  · rw [← hcode hb]; rfl
  · rw [← hcode ht]; rfl
  · rw [← hcode hn]; rfl
  · rw [← hcode hf]; rfl
  · rw [← hcode hr]; rfl
  · change some (Char.ofNat (16 * hexDigitOf _ + hexDigitOf _), rest) = _
    rw [hexDigitOf_digits c.toNat hcontrol, Char.ofNat_toNat]
  · simp [unescape, hslash]

theorem escaped_delimited (c : Char) :
    Delimited escaped id (fun _ => True) (fun _ => True) c := by
  intro d _ rest rest' _ _ h
  have hread := congrArg unescape h
  rw [unescape_escaped, unescape_escaped] at hread
  exact Prod.mk.inj (Option.some.inj hread)

theorem escaped_head (c : Char) : ∃ first rest, escaped c = first :: rest ∧ first ≠ '"' := by
  rw [escaped]
  split_ifs with hquote
  all_goals first | exact ⟨_, _, rfl, hquote⟩ | exact ⟨'\\', _, rfl, by decide⟩

/-- A string literal tells its string and where it ends. -/
theorem quoted_delimited (text : String) :
    Delimited (fun text => (quoted text).toList) id (fun _ => True) (fun _ => True) text := by
  intro other _ rest rest' _ _ h
  simp only [quoted, String.toList_ofList, List.cons_append, List.cons.injEq, true_and] at h
  obtain ⟨hchars, hrest⟩ := delimited_terminated escaped_delimited escaped_head text.toList
    other.toList trivial rest rest' trivial trivial h
  exact ⟨String.toList_inj.mp hchars, hrest⟩

theorem members_eq_of_text {formatFinite : Rat → String} {entries others : List (String × Value)}
    (h : ∀ entry ∈ entries, ∀ other ∈ others, entry.1 = other.1 → entry = other)
    (hlength : entries.length = others.length) {first : Bool} {rest rest' : List Char}
    (htext : separated ',' first (entries.map (entryText formatFinite)) ++ rest =
      separated ',' first (others.map (entryText formatFinite)) ++ rest') : entries = others := by
  induction entries generalizing others first with
  | nil => exact (List.length_eq_zero_iff.mp hlength.symm).symm
  | cons entry entries ih =>
    cases others with
    | nil => cases hlength
    | cons other others =>
      rw [List.map_cons, List.map_cons, separated_cons_append, separated_cons_append] at htext
      have hparts := List.append_cancel_left htext
      have hname : entry.1 = other.1 := by
        simp only [entryText, memberText, List.append_assoc] at hparts
        exact (quoted_delimited entry.1 other.1 trivial _ _ trivial trivial hparts).1
      obtain rfl := h entry List.mem_cons_self other List.mem_cons_self hname
      have hrest := ih (fun entry hentry other hother =>
        h entry (List.mem_cons_of_mem _ hentry) other (List.mem_cons_of_mem _ hother))
          (Nat.succ.inj hlength) (List.append_cancel_left hparts)
      rw [hrest]

end Strings

section Numbers

def isNumeral (c : Char) : Bool := c.isDigit || c == '-'

theorem isNumeral_of_mem_toString (value : Int) :
    ∀ c ∈ (toString value).toList, isNumeral c = true := by
  have hdigits : ∀ n : Nat, ∀ c ∈ (toString n).toList, isNumeral c = true := by
    intro n c hc
    rw [Nat.toString_eq_ofList_toDigits, String.toList_ofList] at hc
    rw [isNumeral, Nat.isDigit_of_mem_toDigits (by decide) (by decide) hc, Bool.true_or]
  intro c hc
  cases value with
  | ofNat n => exact hdigits n c hc
  | negSucc n =>
    change c ∈ ("-" ++ toString (n + 1)).toList at hc
    rw [String.toList_append] at hc
    rcases List.mem_append.mp hc with hsign | hc
    · rw [List.mem_singleton.mp hsign]
      rfl
    · exact hdigits (n + 1) c hc

theorem integer_delimited (value : Int) :
    Delimited (fun value : Int => (toString value).toList) id (fun _ => True) (Stops isNumeral)
      value := by
  refine delimited_of_class (fun value _ => isNumeral_of_mem_toString value) ?_ trivial
  intro value other h
  exact Int.repr_injective (String.toList_inj.mp h)

end Numbers

end Json

end LicoArc
