import LicoArc.JsonOrder

/-!
# Closed schemas

A schema gives every object inside a value its members. A value that conforms
holds at each path a part that conforms to the schema of that path, so that it
no longer conforms with a member of another name added to one of its objects.
-/

namespace LicoArc

namespace Json

/-! ## Paths -/

inductive Step
  | member (name : String)
  | item (index : Nat)

namespace Value

def part : List Step → Value → Option Value
  | [], value => some value
  | .member name :: path, .object entries => (Map.get entries name).bind (part path)
  | .item index :: path, .array values => values[index]?.bind (part path)
  | _ :: _, _ => none

/-- The value with a member added to the object at a path. -/
def insertAt (name : String) : List Step → Value → Value → Value
  | [], .object entries, added => .object (Map.insert name added entries)
  | .member key :: path, .object entries, added => .object (entries.map fun entry =>
      if entry.1 = key then (entry.1, insertAt name path entry.2 added) else entry)
  | .item index :: path, .array values, added =>
    .array (values.modify index fun value => insertAt name path value added)
  | _, value, _ => value

def Scalar : Value → Prop
  | .null | .bool _ | .number _ | .string _ => True
  | .array _ | .object _ => False

def member (value : Value) (key : String) : Option Value := value.asObject.bind (Map.get · key)

end Value

section Insertion

variable {object : Map} {key other : String} {value added : Value}

theorem Map.get_map_at {f : Value → Value} :
    Map.get (object.map fun entry => if entry.1 = key then (entry.1, f entry.2) else entry) key =
      (object.get key).map f := by
  induction object with
  | nil => rfl
  | cons entry object ih =>
    obtain ⟨first, old⟩ := entry
    by_cases hkey : first = key
    · simp [Map.get, hkey]
    · have hne : (key == first) = false := beq_eq_false_iff_ne.mpr fun h => hkey h.symm
      simpa [Map.get, List.lookup_cons, hkey, hne] using ih

theorem Map.get_map_of_ne {f : Value → Value} (h : other ≠ key) :
    Map.get (object.map fun entry => if entry.1 = key then (entry.1, f entry.2) else entry) other =
      object.get other := by
  induction object with
  | nil => rfl
  | cons entry object ih =>
    obtain ⟨first, old⟩ := entry
    by_cases hkey : first = key
    · have hne : (other == first) = false := beq_eq_false_iff_ne.mpr (hkey ▸ h)
      simpa [Map.get, List.lookup_cons, hkey, hne, beq_eq_false_iff_ne.mpr h] using ih
    · simp only [Map.get, List.map_cons, hkey, if_false, List.lookup_cons] at ih ⊢
      rw [ih]

end Insertion

section Paths

variable {name : String} {added : Value}

/-- What stands at the path of an insertion. -/
theorem Value.part_insertAt {path : List Step} {value : Value} {object : Map}
    (h : value.part path = some (.object object)) :
    (value.insertAt name path added).part path = some (.object (Map.insert name added object)) := by
  induction path generalizing value with
  | nil =>
    cases Option.some.inj h
    rfl
  | cons step path ih =>
    cases step with
    | member key =>
      cases value with
      | object entries =>
        obtain ⟨inner, hget, hpart⟩ := Option.bind_eq_some_iff.mp h
        have hmap := @Map.get_map_at entries key fun value => insertAt name path value added
        rw [Value.insertAt, Value.part, hmap, hget]
        exact ih hpart
      | _ => cases h
    | item index =>
      cases value with
      | array values =>
        obtain ⟨inner, hget, hpart⟩ := Option.bind_eq_some_iff.mp h
        rw [Value.insertAt, Value.part, List.getElem?_modify_eq, hget]
        exact ih hpart
      | _ => cases h

theorem Value.member_insertAt {path : List Step} {value inner : Value} {object : Map} {key : String}
    (h : value.part path = some (.object object)) (hmember : value.member key = some inner)
    (hscalar : inner.Scalar) (hname : path = [] → name ≠ key) :
    (value.insertAt name path added).member key = some inner := by
  cases path with
  | nil =>
    cases Option.some.inj h
    exact (Map.get_insert (hname rfl).symm).trans hmember
  | cons step path =>
    cases step with
    | member other =>
      cases value with
      | object entries =>
        have hother : key ≠ other → _ :=
          @Map.get_map_of_ne entries other key fun value => insertAt name path value added
        refine (hother ?_).trans hmember
        rintro rfl
        obtain ⟨nested, hget, hpart⟩ := Option.bind_eq_some_iff.mp h
        cases Option.some.inj (hget.symm.trans hmember)
        cases path with
        | nil =>
          cases Option.some.inj hpart
          exact hscalar
        | cons step path =>
          cases inner with
          | array | object => exact hscalar
          | _ => cases step <;> cases hpart
      | _ => cases h
    | item index =>
      cases value with
      | array values => cases hmember
      | _ => cases h

theorem Value.insertAt_ordered (hadded : added.Ordered) {path : List Step} {value : Value}
    (h : value.Ordered) : (value.insertAt name path added).Ordered := by
  induction path generalizing value with
  | nil =>
    cases value with
    | object entries =>
      obtain ⟨hnames, hvalues⟩ := Value.ordered_object.mp h
      refine Value.ordered_object.mpr ⟨Map.insert_ordered hnames, fun entry hentry => ?_⟩
      rcases Map.of_mem_insert hentry with rfl | hentry
      · exact hadded
      · exact hvalues entry hentry
    | _ => exact h
  | cons step path ih =>
    cases step with
    | member key =>
      cases value with
      | object entries =>
        obtain ⟨hnames, hvalues⟩ := Value.ordered_object.mp h
        refine Value.ordered_object.mpr ⟨?_, ?_⟩
        · rw [List.map_map]
          convert hnames using 2
          funext entry
          simp only [Function.comp_apply]
          split_ifs <;> rfl
        · rw [List.forall_mem_map]
          intro entry hentry
          split_ifs
          · exact ih (hvalues entry hentry)
          · exact hvalues entry hentry
      | _ => exact h
    | item index =>
      cases value with
      | array values =>
        have hvalues := Value.ordered_array.mp h
        refine Value.ordered_array.mpr fun inner hinner => ?_
        obtain ⟨i, hi⟩ := List.mem_iff_getElem?.mp hinner
        rw [List.getElem?_modify] at hi
        obtain ⟨old, hold, rfl⟩ := Option.map_eq_some_iff.mp hi
        split_ifs
        · exact ih (hvalues old (List.mem_of_getElem? hold))
        · exact hvalues old (List.mem_of_getElem? hold)
      | _ => exact h

end Paths

/-! ## Schemas -/

/-- The shape of a value over kinds of scalars. -/
inductive Schema (α : Type)
  | leaf (kind : α)
  | array (least most : Nat) (item : Schema α)
  | object (members : List (String × Schema α)) (required : List String)

def Schema.part {α : Type} : List Step → Schema α → Option (Schema α)
  | [], schema => some schema
  | .member name :: path, .object members _ => (members.lookup name).bind (part path)
  | .item _ :: path, .array _ _ item => part path item
  | _ :: _, _ => none

section Conforms

variable {α : Type} {checks : α → Value → Prop} {schema : Schema α} {value : Value}

/-- The value has the shape of the schema, and its scalars pass their checks. -/
inductive Conforms (checks : α → Value → Prop) : Schema α → Value → Prop
  | leaf {kind : α} {value : Value} (h : checks kind value) : Conforms checks (.leaf kind) value
  | array {least most : Nat} {item : Schema α} {values : List Value}
      (bounds : least ≤ values.length ∧ values.length ≤ most)
      (items : ∀ value ∈ values, Conforms checks item value) :
      Conforms checks (.array least most item) (.array values)
  | object {members : List (String × Schema α)} {required : List String} {object : Map}
      (closed : ∀ entry ∈ object, entry.1 ∈ members.map Prod.fst)
      (complete : ∀ name ∈ required, (object.get name).isSome)
      (fields : ∀ name value inner, object.get name = some value →
        members.lookup name = some inner → Conforms checks inner value) :
      Conforms checks (.object members required) (.object object)

theorem exists_lookup {members : List (String × Schema α)} {name : String}
    (h : name ∈ members.map Prod.fst) : ∃ inner, members.lookup name = some inner := by
  refine Option.ne_none_iff_exists'.mp fun hnone => ?_
  obtain ⟨entry, hentry, rfl⟩ := List.mem_map.mp h
  have hne := List.lookup_eq_none_iff.mp hnone entry hentry
  exact absurd rfl (bne_iff_ne.mp hne)

theorem Conforms.part (hscalar : ∀ kind value, checks kind value → value.Scalar)
    (h : Conforms checks schema value) {path : List Step} {part : Value}
    (hpart : value.part path = some part) :
    ∃ inner, schema.part path = some inner ∧ Conforms checks inner part := by
  induction path generalizing schema value with
  | nil =>
    cases Option.some.inj hpart
    exact ⟨schema, rfl, h⟩
  | cons step path ih =>
    cases h with
    | leaf hchecks =>
      have hplain := hscalar _ _ hchecks
      cases value with
      | array | object => exact hplain.elim
      | _ => cases step <;> cases hpart
    | array _ items =>
      cases step with
      | member => cases hpart
      | item index =>
        obtain ⟨inner, hinner, hrest⟩ := Option.bind_eq_some_iff.mp hpart
        exact ih (items inner (List.mem_of_getElem? hinner)) hrest
    | @object members required object closed _ fields =>
      cases step with
      | item => cases hpart
      | member name =>
        obtain ⟨inner, hinner, hrest⟩ := Option.bind_eq_some_iff.mp hpart
        obtain ⟨nested, hnested⟩ := exists_lookup (closed _ (Map.mem_of_get hinner))
        obtain ⟨found, hfound, hconforms⟩ := ih (fields name inner nested hinner hnested) hrest
        refine ⟨found, ?_, hconforms⟩
        rw [Schema.part, hnested]
        exact hfound

/-- A value that conforms has no object that takes a member outside its schema. -/
theorem Conforms.insertAt_not (hscalar : ∀ kind value, checks kind value → value.Scalar)
    (h : Conforms checks schema value) {path : List Step} {object : Map}
    (hpart : value.part path = some (.object object)) :
    ∃ members required, schema.part path = some (.object members required) ∧
      ∀ name, name ∉ members.map Prod.fst → ∀ added,
        ¬Conforms checks schema (value.insertAt name path added) := by
  obtain ⟨inner, hinner, hconforms⟩ := h.part hscalar hpart
  cases hconforms with
  | leaf hchecks => exact (hscalar _ _ hchecks).elim
  | object _ _ _ =>
    refine ⟨_, _, hinner, fun name hname added hinserted => ?_⟩
    obtain ⟨found, hfound, hnested⟩ := hinserted.part hscalar (Value.part_insertAt hpart)
    cases Option.some.inj (hfound.symm.trans hinner)
    cases hnested with
    | object closed _ _ => exact hname (closed _ Map.mem_insert)

end Conforms

end Json

end LicoArc
