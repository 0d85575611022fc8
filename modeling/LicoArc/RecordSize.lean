import LicoArc.AuthorityRecord
import LicoArc.EncodingSize
import LicoArc.JsonOrder

/-!
# Sizes of records

The size of the canonical text of a JSON value with an upper bound on it, and the
input budget that it spends. What stays within the limits passes the bounded
writers.
-/

namespace LicoArc

namespace Json

open Identity

namespace Value

mutual

/-- The most bytes that the canonical text takes. -/
def canonicalSize : Value → Nat
  | .null => 4
  | .bool _ => 5
  | .number _ => 17
  | .string text => (quoted text).utf8ByteSize
  | .array values => 2 + itemsSize values
  | .object entries => 2 + entriesSize entries

def itemsSize : List Value → Nat
  | [] => 0
  | value :: values => 1 + value.canonicalSize + itemsSize values

def entriesSize : List (String × Value) → Nat
  | [] => 0
  | (key, value) :: entries =>
    2 + (quoted key).utf8ByteSize + value.canonicalSize + entriesSize entries

end

mutual

/-- The bytes of the canonical text of a value whose numbers are integers. -/
def textSize : Value → Nat
  | .null => 4
  | .bool value => if value then 4 else 5
  | .number (.integer value) => (toString value).utf8ByteSize
  | .number (.float _) => 0
  | .string text => (quoted text).utf8ByteSize
  | .array values => 2 + (values.length - 1) + itemsTextSize values
  | .object entries => 2 + (entries.length - 1) + entriesTextSize entries

def itemsTextSize : List Value → Nat
  | [] => 0
  | value :: values => value.textSize + itemsTextSize values

def entriesTextSize : List (String × Value) → Nat
  | [] => 0
  | (key, value) :: entries =>
    (quoted key).utf8ByteSize + 1 + value.textSize + entriesTextSize entries

end

mutual

def budget : Value → Nat
  | .null | .bool _ | .number _ => 1
  | .string text => (Encoding.textBytes text).length
  | .array values => 1 + itemsBudget values
  | .object entries =>
    (entries.map fun entry => (Encoding.textBytes entry.1).length).sum + entriesBudget entries

def itemsBudget : List Value → Nat
  | [] => 0
  | value :: values => value.budget + itemsBudget values

def entriesBudget : List (String × Value) → Nat
  | [] => 0
  | (_, value) :: entries => value.budget + entriesBudget entries

end

mutual

/-- The local limits of a value with the levels that it may still open; numbers are safe
integers. -/
def Fits (levels : Nat) : Value → Prop
  | .null | .bool _ => True
  | .number (.integer value) => value.natAbs ≤ maxInteger
  | .number (.float _) => False
  | .string text => (Encoding.textBytes text).length ≤ 8192
  | .array values => values.length ≤ 64 ∧ levels ≠ 0 ∧ ItemsFit (levels - 1) values
  | .object entries => entries.length ≤ 64 ∧ levels ≠ 0 ∧
      (∀ entry ∈ entries, (Encoding.textBytes entry.1).length ≤ 4096) ∧
      EntriesFit (levels - 1) entries

def ItemsFit (levels : Nat) : List Value → Prop
  | [] => True
  | value :: values => value.Fits levels ∧ ItemsFit levels values

def EntriesFit (levels : Nat) : List (String × Value) → Prop
  | [] => True
  | (_, value) :: entries => value.Fits levels ∧ EntriesFit levels entries

end

end Value

section Canonical

variable {formatFinite : Rat → String} {maximum : Nat}

theorem textBytes_length (text : String) :
    (Encoding.textBytes text).length = text.utf8ByteSize := Array.length_toList

theorem utf8ByteSize_ofList {chars : List Char} (h : ∀ c ∈ chars, c.utf8Size = 1) :
    (String.ofList chars).utf8ByteSize = chars.length := by
  rw [← textBytes_length, Encoding.textBytes_ofList, List.length_flatMap]
  simp only [String.length_utf8EncodeChar]
  rw [List.map_congr_left h]
  simp

theorem utf8Size_of_isDigit {c : Char} (h : c.isDigit) : c.utf8Size = 1 := by
  rw [Char.utf8Size_eq_one_iff]
  simp only [Char.isDigit, Bool.and_eq_true, decide_eq_true_eq] at h
  exact UInt32.le_trans h.2 (by decide)

theorem decimal_size {n digits : Nat} (hdigits : 0 < digits) (h : n < 10 ^ digits) :
    (toString n).utf8ByteSize ≤ digits := by
  rw [Nat.toString_eq_ofList_toDigits, utf8ByteSize_ofList fun c hc =>
    utf8Size_of_isDigit (Nat.isDigit_of_mem_toDigits (by decide) (by decide) hc)]
  exact (Nat.length_toDigits_le_iff (by decide) hdigits).mpr h

theorem integerText_size {value : Int} (h : value.natAbs ≤ maxInteger) :
    (toString value).utf8ByteSize ≤ 17 := by
  have hbound : maxInteger < 10 ^ 16 := by decide
  cases value with
  | ofNat n =>
    have hsize : (toString n).utf8ByteSize ≤ 16 :=
      decimal_size (by decide) (lt_of_le_of_lt h hbound)
    exact hsize.trans (by decide)
  | negSucc n =>
    have hsize : (toString (n + 1)).utf8ByteSize ≤ 16 :=
      decimal_size (by decide) (lt_of_le_of_lt h hbound)
    change ("-" ++ toString (n + 1)).utf8ByteSize ≤ 17
    rw [String.utf8ByteSize_append]
    have hsign : "-".utf8ByteSize = 1 := by decide
    omega

/-- A writer that adds a number of bytes where they fit and is refused elsewhere. -/
def Writes (maximum : Nat) (append : String → Except Error String) (size : Nat) : Prop :=
  ∀ output : String, output.utf8ByteSize ≤ maximum →
    (append output).map String.utf8ByteSize =
      if output.utf8ByteSize + size ≤ maximum then .ok (output.utf8ByteSize + size)
      else .error (admission .boundExceeded)

theorem Writes.push (value : String) :
    Writes maximum (fun output => pushBounded maximum output value) value.utf8ByteSize := by
  intro output _
  simp only [pushBounded]
  split_ifs
  · rw [Except.map, String.utf8ByteSize_append]
  · rfl

theorem Writes.bind {first second : String → Except Error String} {a b : Nat}
    (hfirst : Writes maximum first a) (hsecond : Writes maximum second b) :
    Writes maximum (fun output => first output >>= second) (a + b) := by
  intro output hbound
  have hmiddle := hfirst output hbound
  change (first output >>= second).map String.utf8ByteSize = _
  cases hcase : first output with
  | error error =>
    rw [hcase] at hmiddle
    split_ifs at hmiddle with hfits
    · cases hmiddle
    · rw [if_neg (by omega)]
      exact hmiddle
  | ok middle =>
    rw [hcase] at hmiddle
    split_ifs at hmiddle with hfits
    · injection hmiddle with hmiddle
      rw [Except.ok_bind, hsecond middle (by omega), hmiddle, add_assoc]
    · cases hmiddle

theorem separate_writes (first : Bool) :
    Writes maximum (separate maximum first) (if first then 0 else 1) := by
  cases first with
  | true =>
    intro output hbound
    rw [if_pos rfl, add_zero, if_pos hbound]
    rfl
  | false => exact Writes.push ","

def commas (first : Bool) (parts : Nat) : Nat := if first then parts - 1 else parts

theorem commas_succ (first : Bool) (parts : Nat) :
    commas first (parts + 1) = (if first then 0 else 1) + commas false parts := by
  cases first <;> simp [commas, add_comm]

theorem writes_nil (first : Bool) : Writes maximum .ok (commas first 0 + 0) := by
  intro output hbound
  have hzero : commas first 0 = 0 := by cases first <;> rfl
  rw [hzero, add_zero, add_zero, if_pos hbound]
  rfl

theorem appendItems_writes {values : List Value} (h : ∀ value ∈ values,
    Writes maximum (appendCanonicalJson formatFinite maximum value) value.textSize)
    (first : Bool) :
    Writes maximum (appendItems formatFinite maximum first values)
      (commas first values.length + Value.itemsTextSize values) := by
  induction values generalizing first with
  | nil => exact writes_nil first
  | cons value values ih =>
    obtain ⟨hvalue, hvalues⟩ := List.forall_mem_cons.mp h
    have hitems := (separate_writes first).bind (hvalue.bind (ih hvalues false))
    have hsize : commas first (value :: values).length + Value.itemsTextSize (value :: values) =
        (if first then 0 else 1) +
          (value.textSize + (commas false values.length + Value.itemsTextSize values)) := by
      rw [List.length_cons, commas_succ, Value.itemsTextSize]
      omega
    rw [hsize]
    exact hitems

def memberSize (entry : String × Value) : Nat :=
  (quoted entry.1).utf8ByteSize + 1 + entry.2.textSize

theorem entriesTextSize_eq (entries : List (String × Value)) :
    Value.entriesTextSize entries = (entries.map memberSize).sum := by
  induction entries with
  | nil => rfl
  | cons entry entries ih => rw [Value.entriesTextSize, List.map_cons, List.sum_cons, ← ih]; rfl

theorem appendEntries_writes {entries : List (String × Value)} (h : ∀ entry ∈ entries,
    Writes maximum (appendCanonicalJson formatFinite maximum entry.2) entry.2.textSize)
    (first : Bool) :
    Writes maximum
      (appendEntries maximum first (entries.map (memberAppender formatFinite maximum)))
      (commas first entries.length + (entries.map memberSize).sum) := by
  induction entries generalizing first with
  | nil => exact writes_nil first
  | cons entry entries ih =>
    obtain ⟨hvalue, hentries⟩ := List.forall_mem_cons.mp h
    have hcolon : Writes maximum (pushBounded maximum · ":") 1 := Writes.push ":"
    have hname : Writes maximum (pushBounded maximum · (quoted entry.1))
      (quoted entry.1).utf8ByteSize := Writes.push _
    have hmember := (separate_writes first).bind
      (hname.bind (hcolon.bind (hvalue.bind (ih hentries false))))
    have hsize : commas first (entry :: entries).length + ((entry :: entries).map memberSize).sum =
        (if first then 0 else 1) + ((quoted entry.1).utf8ByteSize + (1 + (entry.2.textSize +
          (commas false entries.length + (entries.map memberSize).sum)))) := by
      rw [List.length_cons, commas_succ, List.map_cons, List.sum_cons, memberSize]
      omega
    rw [hsize]
    exact hmember

theorem appendObject_writes {entries : List (String × Value)} (h : ∀ entry ∈ entries,
    Writes maximum (appendCanonicalJson formatFinite maximum entry.2) entry.2.textSize) :
    Writes maximum (appendCanonicalJson formatFinite maximum (.object entries))
      (Value.object entries).textSize := by
  have hperm := sortEntries_perm entries
  have hsorted := appendEntries_writes (fun entry hentry => h entry (hperm.mem_iff.mp hentry)) true
  rw [hperm.length_eq, (hperm.map memberSize).sum_eq, ← entriesTextSize_eq,
    ← sortEntries_appenders, ← entryAppenders_eq] at hsorted
  have hopen : Writes maximum (pushBounded maximum · "\x7b") 1 := Writes.push _
  have hclose : Writes maximum (pushBounded maximum · "\x7d") 1 := Writes.push _
  have hobject := hopen.bind (hsorted.bind hclose)
  have hsize : (Value.object entries).textSize =
      1 + (commas true entries.length + Value.entriesTextSize entries + 1) := by
    rw [Value.textSize, commas, if_pos rfl]
    omega
  rw [hsize]
  exact hobject

theorem canonicalNumber_integer {value : Int} (h : value.natAbs ≤ maxInteger) :
    canonicalNumber formatFinite (.integer value) = some (toString value) := if_pos h

mutual

theorem appendCanonicalJson_writes {levels : Nat} : ∀ value : Value, value.Fits levels →
    Writes maximum (appendCanonicalJson formatFinite maximum value) value.textSize
  | .null, _ => Writes.push "null"
  | .bool value, _ => by
    cases value with
    | false => exact Writes.push "false"
    | true => exact Writes.push "true"
  | .number (.integer value), h => by
    intro output hbound
    simp only [Value.Fits] at h
    simp only [appendCanonicalJson, canonicalNumber_integer h, okOr, Except.ok_bind]
    exact Writes.push (toString value) output hbound
  | .number (.float _), h => by simp only [Value.Fits] at h
  | .string text, _ => Writes.push (quoted text)
  | .array values, h => by
    simp only [Value.Fits] at h
    have hopen : Writes maximum (pushBounded maximum · "[") 1 := Writes.push "["
    have hclose : Writes maximum (pushBounded maximum · "]") 1 := Writes.push "]"
    have hitems := appendItems_writes (appendCanonicalJson_items values h.2.2) true
    have harray := hopen.bind (hitems.bind hclose)
    have hsize : (Value.array values).textSize =
        1 + (commas true values.length + Value.itemsTextSize values + 1) := by
      rw [Value.textSize, commas, if_pos rfl]
      omega
    rw [hsize]
    exact harray
  | .object entries, h => by
    simp only [Value.Fits] at h
    exact appendObject_writes (appendCanonicalJson_entries entries h.2.2.2)

theorem appendCanonicalJson_items {levels : Nat} : ∀ values : List Value,
    Value.ItemsFit levels values → ∀ value ∈ values,
      Writes maximum (appendCanonicalJson formatFinite maximum value) value.textSize
  | [], _ => nofun
  | value :: values, h => by
    simp only [Value.ItemsFit] at h
    exact List.forall_mem_cons.mpr
      ⟨appendCanonicalJson_writes value h.1, appendCanonicalJson_items values h.2⟩

theorem appendCanonicalJson_entries {levels : Nat} : ∀ entries : List (String × Value),
    Value.EntriesFit levels entries → ∀ entry ∈ entries,
      Writes maximum (appendCanonicalJson formatFinite maximum entry.2) entry.2.textSize
  | [], _ => nofun
  | (key, value) :: entries, h => by
    simp only [Value.EntriesFit] at h
    exact List.forall_mem_cons.mpr
      ⟨appendCanonicalJson_writes value h.1, appendCanonicalJson_entries entries h.2⟩

end

/-- The canonical text of a value, where the writer admits it. -/
theorem canonicalJson_size {value : Value} {levels : Nat} (h : value.Fits levels) :
    (canonicalJson formatFinite value).map String.utf8ByteSize =
      if value.textSize ≤ maxSourceBytes then .ok value.textSize
      else .error (admission .boundExceeded) := by
  have hwrites : Writes maxSourceBytes (appendCanonicalJson formatFinite maxSourceBytes value)
    value.textSize := appendCanonicalJson_writes value h
  have hsize := hwrites "" (Nat.zero_le _)
  rwa [String.utf8ByteSize_empty, zero_add] at hsize

theorem canonicalJson_ok {value : Value} {levels : Nat} (h : value.Fits levels)
    (hsize : value.textSize ≤ maxSourceBytes) :
    ∃ text, canonicalJson formatFinite value = .ok text ∧ text.utf8ByteSize = value.textSize := by
  have htext := @canonicalJson_size formatFinite value levels h
  rw [if_pos hsize] at htext
  cases hcase : canonicalJson formatFinite value with
  | error error =>
    rw [hcase] at htext
    cases htext
  | ok text =>
    rw [hcase] at htext
    exact ⟨text, rfl, Except.ok.inj htext⟩

end Canonical

section Bounds

mutual

theorem validateJsonBounds_ok {levels : Nat} : ∀ (value : Value) {depth inputBudget : Nat},
    value.Fits levels → depth + levels ≤ 16 → inputBudget + value.budget ≤ 65536 →
      validateJsonBounds value depth inputBudget = .ok (inputBudget + value.budget)
  | .null, depth, inputBudget, _, hdepth, hbudget
  | .bool _, depth, inputBudget, _, hdepth, hbudget
  | .number (.integer _), depth, inputBudget, _, hdepth, hbudget => by
    simp only [Value.budget] at hbudget
    rw [validateJsonBounds, reject_of_not _ (by omega)]
    simp only [Except.ok_bind, Value.budget]
    rw [reject_of_not _ (by omega)]
    rfl
  | .number (.float _), _, _, h, _, _ => by simp only [Value.Fits] at h
  | .string text, depth, inputBudget, h, hdepth, hbudget => by
    simp only [Value.Fits] at h
    simp only [Value.budget] at hbudget
    rw [validateJsonBounds, reject_of_not _ (by omega)]
    simp only [Except.ok_bind, Value.budget]
    rw [reject_of_not _ (by omega), Except.ok_bind, reject_of_not _ (by omega)]
    rfl
  | .array values, depth, inputBudget, h, hdepth, hbudget => by
    simp only [Value.Fits] at h
    simp only [Value.budget] at hbudget
    rw [validateJsonBounds, reject_of_not _ (by omega)]
    simp only [Except.ok_bind, Value.budget]
    rw [reject_of_not _ (by omega), Except.ok_bind, reject_of_not _ (by omega), Except.ok_bind,
      validateItemBounds_ok values h.2.2 (by omega) (by omega), Nat.add_assoc]
  | .object entries, depth, inputBudget, h, hdepth, hbudget => by
    simp only [Value.Fits] at h
    simp only [Value.budget] at hbudget
    rw [validateJsonBounds, reject_of_not _ (by omega)]
    simp only [Except.ok_bind, Value.budget]
    rw [reject_of_not _ (by omega), Except.ok_bind, reject_of_not, Except.ok_bind,
      validateEntryBounds_ok entries h.2.2.2 (by omega) (by omega), Nat.add_assoc]
    rw [not_or, not_lt]
    refine ⟨h.1, ?_⟩
    simpa using h.2.2.1

theorem validateItemBounds_ok {levels : Nat} : ∀ (values : List Value) {depth inputBudget : Nat},
    Value.ItemsFit levels values → depth + levels ≤ 16 →
      inputBudget + Value.itemsBudget values ≤ 65536 →
      validateItemBounds values depth inputBudget = .ok (inputBudget + Value.itemsBudget values)
  | [], _, _, _, _, _ => rfl
  | value :: values, depth, inputBudget, h, hdepth, hbudget => by
    simp only [Value.ItemsFit] at h
    simp only [Value.itemsBudget] at hbudget
    rw [validateItemBounds, validateJsonBounds_ok value h.1 hdepth (by omega), Except.ok_bind,
      validateItemBounds_ok values h.2 hdepth (by omega), Value.itemsBudget, Nat.add_assoc]

theorem validateEntryBounds_ok {levels : Nat} :
    ∀ (entries : List (String × Value)) {depth inputBudget : Nat},
    Value.EntriesFit levels entries → depth + levels ≤ 16 →
      inputBudget + Value.entriesBudget entries ≤ 65536 →
      validateEntryBounds entries depth inputBudget =
        .ok (inputBudget + Value.entriesBudget entries)
  | [], _, _, _, _, _ => rfl
  | (key, value) :: entries, depth, inputBudget, h, hdepth, hbudget => by
    simp only [Value.EntriesFit] at h
    simp only [Value.entriesBudget] at hbudget
    rw [validateEntryBounds, validateJsonBounds_ok value h.1 hdepth (by omega), Except.ok_bind,
      validateEntryBounds_ok entries h.2 hdepth (by omega), Value.entriesBudget, Nat.add_assoc]

end

theorem integerText_pos (value : Int) : 1 ≤ (toString value).utf8ByteSize := by
  cases value with
  | ofNat n =>
    change 1 ≤ (toString n).utf8ByteSize
    rw [Nat.toString_eq_ofList_toDigits, utf8ByteSize_ofList fun c hc =>
      utf8Size_of_isDigit (Nat.isDigit_of_mem_toDigits (by decide) (by decide) hc)]
    exact Nat.length_toDigits_pos
  | negSucc n =>
    change 1 ≤ ("-" ++ toString (n + 1)).utf8ByteSize
    rw [String.utf8ByteSize_append]
    have hsign : "-".utf8ByteSize = 1 := by decide
    omega

theorem utf8ByteSize_chars (chars : List Char) :
    (String.ofList chars).utf8ByteSize = (chars.map Char.utf8Size).sum := by
  rw [← textBytes_length, Encoding.textBytes_ofList, List.length_flatMap]
  simp only [String.length_utf8EncodeChar]

theorem escaped_cases (c : Char) :
    escaped c = [c] ∨ c.utf8Size = 1 ∧ ∃ rest, escaped c = '\\' :: rest := by
  have hsmall : c.toNat < 128 → c.utf8Size = 1 := fun h =>
    Char.utf8Size_eq_one_iff.mpr (UInt32.le_iff_toNat_le.mpr (Nat.le_of_lt_succ h))
  rw [escaped]
  split_ifs with hquote hslash
  · exact .inr ⟨by rw [hquote]; decide, _, rfl⟩
  · exact .inr ⟨by rw [hslash]; decide, _, rfl⟩
  all_goals first | exact .inl rfl | exact .inr ⟨hsmall (by omega), _, rfl⟩

theorem utf8Size_escaped (c : Char) : c.utf8Size ≤ ((escaped c).map Char.utf8Size).sum := by
  have hbackslash : '\\'.utf8Size = 1 := by decide
  rcases escaped_cases c with hplain | ⟨hone, rest, hescaped⟩
  · rw [hplain]
    simp
  · rw [hescaped, List.map_cons, List.sum_cons, hone, hbackslash]
    exact Nat.le_add_right 1 _

theorem textBytes_le_quoted (text : String) :
    (Encoding.textBytes text).length ≤ (quoted text).utf8ByteSize := by
  have hchars : ∀ chars : List Char,
      (chars.map Char.utf8Size).sum ≤ ((chars.flatMap escaped).map Char.utf8Size).sum := by
    intro chars
    induction chars with
    | nil => exact le_rfl
    | cons c chars ih =>
      have hfirst := utf8Size_escaped c
      rw [List.map_cons, List.sum_cons, List.flatMap_cons, List.map_append, List.sum_append]
      omega
  have hsize := utf8ByteSize_chars text.toList
  rw [String.ofList_toList] at hsize
  have htext := hchars text.toList
  rw [textBytes_length, hsize, quoted, utf8ByteSize_chars, List.cons_append, List.map_cons,
    List.sum_cons, List.map_append, List.sum_append]
  omega

mutual

theorem budget_le_textSize {levels : Nat} : ∀ value : Value, value.Fits levels →
    value.budget ≤ value.textSize
  | .null, _ => by decide
  | .bool value, _ => by cases value <;> decide
  | .number (.integer value), _ => integerText_pos value
  | .number (.float _), h => by simp only [Value.Fits] at h
  | .string text, _ => textBytes_le_quoted text
  | .array values, h => by
    simp only [Value.Fits] at h
    have hitems := itemsBudget_le values h.2.2
    rw [Value.budget, Value.textSize]
    omega
  | .object entries, h => by
    simp only [Value.Fits] at h
    have hentries := entriesBudget_le entries h.2.2.2
    rw [Value.budget, Value.textSize]
    omega

theorem itemsBudget_le {levels : Nat} : ∀ values : List Value, Value.ItemsFit levels values →
    Value.itemsBudget values ≤ Value.itemsTextSize values
  | [], _ => le_rfl
  | value :: values, h => by
    simp only [Value.ItemsFit] at h
    have hvalue := budget_le_textSize value h.1
    have hvalues := itemsBudget_le values h.2
    rw [Value.itemsBudget, Value.itemsTextSize]
    omega

theorem entriesBudget_le {levels : Nat} : ∀ entries : List (String × Value),
    Value.EntriesFit levels entries →
      (entries.map fun entry => (Encoding.textBytes entry.1).length).sum +
        Value.entriesBudget entries ≤ Value.entriesTextSize entries
  | [], _ => le_rfl
  | (key, value) :: entries, h => by
    simp only [Value.EntriesFit] at h
    have hname := textBytes_le_quoted key
    have hvalue := budget_le_textSize value h.1
    have hentries := entriesBudget_le entries h.2
    simp only [List.map_cons, List.sum_cons, Value.entriesBudget, Value.entriesTextSize]
    omega

end

mutual

theorem textSize_le {levels : Nat} : ∀ value : Value, value.Fits levels →
    value.textSize ≤ value.canonicalSize
  | .null, _ => by decide
  | .bool value, _ => by cases value <;> decide
  | .number (.integer value), h => by
    simp only [Value.Fits] at h
    exact integerText_size h
  | .number (.float _), h => by simp only [Value.Fits] at h
  | .string _, _ => le_rfl
  | .array values, h => by
    simp only [Value.Fits] at h
    have hitems := itemsTextSize_le values h.2.2
    rw [Value.canonicalSize, Value.textSize]
    omega
  | .object entries, h => by
    simp only [Value.Fits] at h
    have hentries := entriesTextSize_le entries h.2.2.2
    rw [Value.canonicalSize, Value.textSize]
    omega

theorem itemsTextSize_le {levels : Nat} : ∀ values : List Value, Value.ItemsFit levels values →
    values.length + Value.itemsTextSize values ≤ Value.itemsSize values
  | [], _ => le_rfl
  | value :: values, h => by
    simp only [Value.ItemsFit] at h
    have hvalue := textSize_le value h.1
    have hvalues := itemsTextSize_le values h.2
    rw [List.length_cons, Value.itemsTextSize, Value.itemsSize]
    omega

theorem entriesTextSize_le {levels : Nat} : ∀ entries : List (String × Value),
    Value.EntriesFit levels entries →
      entries.length + Value.entriesTextSize entries ≤ Value.entriesSize entries
  | [], _ => le_rfl
  | (key, value) :: entries, h => by
    simp only [Value.EntriesFit] at h
    have hvalue := textSize_le value h.1
    have hentries := entriesTextSize_le entries h.2
    rw [List.length_cons, Value.entriesTextSize, Value.entriesSize]
    omega

end

/-- A record within the local limits passes the size checks where its text is short enough. -/
theorem validateSizes_eq_ok {formatFinite : Rat → String} {record : Map}
    (h : (Value.object record).Fits 16) :
    validateSizes formatFinite (.object record) = .ok record ↔
      (Value.object record).textSize ≤ 65536 := by
  have hbudget := budget_le_textSize _ h
  constructor
  · intro hsizes
    simp only [validateSizes, Except.bind_eq_ok, reject_eq_ok] at hsizes
    obtain ⟨_, _, text, htext, _, hsize, _⟩ := hsizes
    have hcanonical := @canonicalJson_size formatFinite _ _ h
    cases hcase : canonicalJson formatFinite (.object record) with
    | error error =>
      rw [hcase] at htext
      cases htext
    | ok canonical =>
      rw [hcase] at htext hcanonical
      cases htext
      split_ifs at hcanonical
      · have hlength : text.utf8ByteSize = _ := Except.ok.inj hcanonical
        omega
      · cases hcanonical
  · intro hsize
    obtain ⟨text, htext, hlength⟩ : ∃ text, canonicalJson formatFinite (.object record) =
        .ok text ∧ text.utf8ByteSize = (Value.object record).textSize :=
      canonicalJson_ok h (hsize.trans (by decide))
    rw [validateSizes, validateJsonBounds_ok _ h (by omega) (by omega), Except.ok_bind, htext]
    simp only [Except.mapError, Except.ok_bind]
    rw [reject_of_not _ (by omega)]
    rfl

end Bounds

section Printed

theorem escaped_digit {digit : Nat} (h : digit < 16) :
    escaped (Nat.digitChar digit) = [Nat.digitChar digit] := by
  interval_cases digit <;> rfl

theorem utf8Size_digitChar {digit : Nat} (h : digit < 16) : (Nat.digitChar digit).utf8Size = 1 := by
  interval_cases digit <;> rfl

theorem quoted_hexBytes (bytes : Bytes) :
    (quoted (hexBytes bytes)).utf8ByteSize = bytes.length * 2 + 2 := by
  have hescaped : (hexBytes bytes).toList.flatMap escaped = (hexBytes bytes).toList := by
    rw [hexBytes, String.toList_ofList, List.flatMap_assoc]
    congr
    funext byte
    simp [escaped_digit (nibbles_lt byte).1, escaped_digit (nibbles_lt byte).2]
  have hascii : ∀ c ∈ (hexBytes bytes).toList, c.utf8Size = 1 := by
    intro c hc
    rw [hexBytes, String.toList_ofList, List.mem_flatMap] at hc
    obtain ⟨byte, _, hc⟩ := hc
    rw [List.mem_pair] at hc
    rcases hc with rfl | rfl
    · exact utf8Size_digitChar (nibbles_lt byte).1
    · exact utf8Size_digitChar (nibbles_lt byte).2
  have hlength : (hexBytes bytes).toList.length = bytes.length * 2 := by
    rw [hexBytes, String.toList_ofList]
    simp [List.length_flatMap]
  rw [quoted, hescaped, utf8ByteSize_ofList]
  · simp [hlength]
  · intro c hc
    simp only [List.cons_append, List.mem_cons, List.mem_append, List.not_mem_nil, or_false] at hc
    rcases hc with rfl | hc | rfl
    · rfl
    · exact hascii c hc
    · rfl

theorem hexBytes_size (bytes : Bytes) :
    (Encoding.textBytes (hexBytes bytes)).length = bytes.length * 2 := by
  rw [textBytes_hexBytes, hexPairs_length]

end Printed

end Json

end LicoArc
