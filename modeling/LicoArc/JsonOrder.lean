import LicoArc.Json
import LicoArc.KeyedLists

/-!
# Ordered objects

The objects of `serde_json` list their members in ascending order of their
names, each name once. Such an object is given by the members under its names.
-/

namespace LicoArc

namespace Json

namespace Value

mutual

/-- Every object inside the value lists its members in ascending order. -/
def Ordered : Value → Prop
  | .null | .bool _ | .number _ | .string _ => True
  | .array values => ItemsOrdered values
  | .object entries => (entries.map Prod.fst).Pairwise (· < ·) ∧ EntriesOrdered entries

def ItemsOrdered : List Value → Prop
  | [] => True
  | value :: values => value.Ordered ∧ ItemsOrdered values

def EntriesOrdered : List (String × Value) → Prop
  | [] => True
  | (_, value) :: entries => value.Ordered ∧ EntriesOrdered entries

end

theorem itemsOrdered_iff {values : List Value} :
    ItemsOrdered values ↔ ∀ value ∈ values, value.Ordered := by
  induction values with
  | nil => simp [ItemsOrdered]
  | cons value values ih => simp [ItemsOrdered, ih]

theorem entriesOrdered_iff {entries : List (String × Value)} :
    EntriesOrdered entries ↔ ∀ entry ∈ entries, entry.2.Ordered := by
  induction entries with
  | nil => simp [EntriesOrdered]
  | cons entry entries ih => simp [EntriesOrdered, ih]

theorem ordered_array {values : List Value} :
    (array values).Ordered ↔ ∀ value ∈ values, value.Ordered := by
  rw [Ordered, itemsOrdered_iff]

theorem ordered_object {entries : List (String × Value)} :
    (object entries).Ordered ↔
      (entries.map Prod.fst).Pairwise (· < ·) ∧ ∀ entry ∈ entries, entry.2.Ordered := by
  rw [Ordered, entriesOrdered_iff]

end Value

namespace Map

variable {object other : Map}

theorem mem_of_get {key : String} {value : Value} (h : object.get key = some value) :
    (key, value) ∈ object := by
  rw [Map.get, List.lookup_eq_some_iff] at h
  obtain ⟨before, after, rfl, _⟩ := h
  exact List.mem_append_right _ List.mem_cons_self

theorem get_of_mem (h : (object.map Prod.fst).Pairwise (· < ·)) {key : String} {value : Value}
    (hmem : (key, value) ∈ object) : object.get key = some value := by
  induction object with
  | nil => cases hmem
  | cons entry object ih =>
    obtain ⟨hfirst, hrest⟩ := List.pairwise_cons.mp h
    rw [Map.get, List.lookup_cons]
    rcases List.mem_cons.mp hmem with rfl | hmem
    · simp
    · have hlt := hfirst key (List.mem_map_of_mem hmem)
      rw [beq_eq_false_iff_ne.mpr hlt.ne']
      exact ih hrest hmem

theorem ext_of_get (h : (object.map Prod.fst).Pairwise (· < ·))
    (h' : (other.map Prod.fst).Pairwise (· < ·)) (hget : ∀ key, object.get key = other.get key) :
    object = other := by
  rw [List.pairwise_map] at h h'
  refine eq_of_pairwise_lt h h' fun entry => ?_
  constructor
  · intro hmem
    exact mem_of_get (hget _ ▸ get_of_mem (List.pairwise_map.mpr h) hmem)
  · intro hmem
    exact mem_of_get ((hget _).symm ▸ get_of_mem (List.pairwise_map.mpr h') hmem)

def insert (key : String) (value : Value) : Map → Map
  | [] => [(key, value)]
  | (first, other) :: object =>
    if key < first then (key, value) :: (first, other) :: object
    else if key = first then (key, value) :: object
    else (first, other) :: insert key value object

/-- The object after the insertion of its members one after the other. -/
def ofMembers (members : List (String × Value)) : Map :=
  members.foldl (fun object entry => object.insert entry.1 entry.2) []

section

variable {key other : String} {value : Value}

theorem mem_insert : (key, value) ∈ Map.insert key value object := by
  induction object with
  | nil => exact List.mem_cons_self
  | cons entry object ih =>
    obtain ⟨first, old⟩ := entry
    rw [Map.insert]
    split_ifs
    · exact List.mem_cons_self
    · exact List.mem_cons_self
    · exact List.mem_cons_of_mem _ ih

theorem of_mem_insert {entry : String × Value} (h : entry ∈ Map.insert key value object) :
    entry = (key, value) ∨ entry ∈ object := by
  induction object with
  | nil => exact .inl (List.mem_singleton.mp h)
  | cons first object ih =>
    obtain ⟨name, old⟩ := first
    rw [Map.insert] at h
    split_ifs at h
    · exact List.mem_cons.mp h
    · exact (List.mem_cons.mp h).imp_right (List.mem_cons_of_mem _)
    · rcases List.mem_cons.mp h with rfl | h
      · exact .inr List.mem_cons_self
      · exact (ih h).imp_right (List.mem_cons_of_mem _)

theorem get_insert (h : other ≠ key) :
    (Map.insert key value object).get other = object.get other := by
  have hkey : (other == key) = false := beq_eq_false_iff_ne.mpr h
  induction object with
  | nil => simp [Map.insert, Map.get, List.lookup_cons, hkey]
  | cons entry object ih =>
    obtain ⟨first, old⟩ := entry
    rw [Map.insert]
    split_ifs with hlt heq
    · simp [Map.get, List.lookup_cons, hkey]
    · simp [Map.get, List.lookup_cons, hkey, ← heq]
    · simp only [Map.get, List.lookup_cons] at ih ⊢
      rw [ih]

theorem insert_ordered (h : (object.map Prod.fst).Pairwise (· < ·)) :
    ((Map.insert key value object).map Prod.fst).Pairwise (· < ·) := by
  induction object with
  | nil => exact List.pairwise_singleton _ _
  | cons entry object ih =>
    obtain ⟨first, old⟩ := entry
    obtain ⟨hfirst, hrest⟩ := List.pairwise_cons.mp h
    rw [Map.insert]
    split_ifs with hlt heq
    · refine List.pairwise_cons.mpr ⟨fun name hname => ?_, h⟩
      rcases List.mem_cons.mp hname with rfl | hname
      · exact hlt
      · exact hlt.trans (hfirst name hname)
    · subst heq
      exact h
    · refine List.pairwise_cons.mpr ⟨fun name hname => ?_, ih hrest⟩
      obtain ⟨entry, hentry, rfl⟩ := List.mem_map.mp hname
      rcases of_mem_insert hentry with rfl | hentry
      · exact lt_of_le_of_ne (not_lt.mp hlt) fun hsame => heq hsame.symm
      · exact hfirst _ (List.mem_map_of_mem hentry)

theorem insert_perm (h : key ∉ object.map Prod.fst) :
    (object.insert key value).Perm ((key, value) :: object) := by
  induction object with
  | nil => rfl
  | cons entry object ih =>
    obtain ⟨first, old⟩ := entry
    rw [List.map_cons, List.mem_cons, not_or] at h
    rw [Map.insert, if_neg h.1]
    split_ifs
    · rfl
    · exact ((ih h.2).cons _).trans (List.Perm.swap _ _ _)

theorem foldl_insert_perm {members : List (String × Value)}
    (h : ((object ++ members).map Prod.fst).Nodup) :
    (members.foldl (fun object entry => object.insert entry.1 entry.2) object).Perm
      (object ++ members) := by
  induction members generalizing object with
  | nil => rw [List.append_nil]; rfl
  | cons entry members ih =>
    have hmiddle : (object ++ entry :: members).Perm (entry :: (object ++ members)) :=
      List.perm_middle
    have hnames := (hmiddle.map Prod.fst).nodup_iff.mp h
    have hfresh : entry.1 ∉ object.map Prod.fst := by
      intro hmem
      refine (List.nodup_cons.mp hnames).1 ?_
      rw [List.map_append]
      exact List.mem_append_left _ hmem
    have hinsert : (object.insert entry.1 entry.2 ++ members).Perm (entry :: (object ++ members)) :=
      (insert_perm hfresh).append_right members
    exact (ih ((hinsert.map Prod.fst).nodup_iff.mpr hnames)).trans (hinsert.trans hmiddle.symm)

theorem ofMembers_perm {members : List (String × Value)} (h : (members.map Prod.fst).Nodup) :
    (ofMembers members).Perm members := foldl_insert_perm h

theorem foldl_insert_ordered {members : List (String × Value)}
    (h : (object.map Prod.fst).Pairwise (· < ·)) :
    ((members.foldl (fun object entry => object.insert entry.1 entry.2) object).map
      Prod.fst).Pairwise (· < ·) := by
  induction members generalizing object with
  | nil => exact h
  | cons entry members ih => exact ih (insert_ordered h)

theorem ofMembers_ordered {members : List (String × Value)} :
    ((ofMembers members).map Prod.fst).Pairwise (· < ·) := foldl_insert_ordered List.Pairwise.nil

theorem of_mem_foldl_insert {members : List (String × Value)} {entry : String × Value}
    (h : entry ∈ members.foldl (fun object entry => object.insert entry.1 entry.2) object) :
    entry ∈ object ∨ entry ∈ members := by
  induction members generalizing object with
  | nil => exact .inl h
  | cons member members ih =>
    rcases ih h with hmem | hmem
    · rcases of_mem_insert hmem with rfl | hmem
      · exact .inr List.mem_cons_self
      · exact .inl hmem
    · exact .inr (List.mem_cons_of_mem _ hmem)

theorem of_mem_ofMembers {members : List (String × Value)} {entry : String × Value}
    (h : entry ∈ ofMembers members) : entry ∈ members :=
  (of_mem_foldl_insert h).resolve_left List.not_mem_nil

/-- Members of distinct names give one object, in whatever order they are inserted. -/
theorem ofMembers_eq {members members' : List (String × Value)} (hperm : members.Perm members')
    (h : (members.map Prod.fst).Nodup) : ofMembers members = ofMembers members' := by
  have h' := (hperm.map Prod.fst).nodup_iff.mp h
  refine eq_of_pairwise_lt (List.pairwise_map.mp ofMembers_ordered)
    (List.pairwise_map.mp ofMembers_ordered) fun entry => ?_
  exact (((ofMembers_perm h).trans hperm).trans (ofMembers_perm h').symm).mem_iff

end

end Map

/-! ## Sorted members -/

section Sorting

theorem sortEntries_map {α β : Type} (f : α → β) (entries : List (String × α)) :
    sortEntries (entries.map fun entry => (entry.1, f entry.2)) =
      (sortEntries entries).map fun entry => (entry.1, f entry.2) :=
  (List.map_insertionSort
    (fun left right : String × α => encodeUtf16 left.1 ≤ encodeUtf16 right.1)
    (fun left right : String × β => encodeUtf16 left.1 ≤ encodeUtf16 right.1)
    (fun entry => (entry.1, f entry.2)) entries fun _ _ _ _ => Iff.rfl).symm

theorem sortEntries_perm {α : Type} (entries : List (String × α)) :
    (sortEntries entries).Perm entries := List.perm_insertionSort _ _

def memberAppender (formatFinite : Rat → String) (maximum : Nat) (entry : String × Value) :
    String × (String → Except Error String) :=
  (entry.1, appendCanonicalJson formatFinite maximum entry.2)

variable {formatFinite : Rat → String} {maximum : Nat}

theorem entryAppenders_eq (entries : List (String × Value)) :
    entryAppenders formatFinite maximum entries =
      entries.map (memberAppender formatFinite maximum) := by
  induction entries with
  | nil => rfl
  | cons entry entries ih =>
    rw [entryAppenders, ih]
    rfl

theorem sortEntries_appenders (entries : List (String × Value)) :
    sortEntries (entries.map (memberAppender formatFinite maximum)) =
      (sortEntries entries).map (memberAppender formatFinite maximum) :=
  sortEntries_map (appendCanonicalJson formatFinite maximum) entries

end Sorting

end Json

end LicoArc
