import LicoArc.JsonOrder

/-!
# Streaming limits of JSON sources

The visitor that reads a source while it is parsed, over the syntax tree whose
events the parser reports, and the recursive check of a value that was read. The
visitor spends its limits along its loops; what it accepts is the value of a tree
of distinct members and safe numbers that the check accepts, and nothing else.
-/

namespace LicoArc

namespace Json

/-- The number of an `f64` event. -/
inductive Double
  | finite (value : Rat)
  | nonFinite

/-- The syntax tree of a text: members in their order, names possibly repeated. -/
inductive Tree
  | null
  | bool (value : Bool)
  | signed (value : Int)
  | unsigned (value : Nat)
  | double (value : Double)
  | string (value : String)
  | array (trees : List Tree)
  | object (members : List (String × Tree))

structure JsonLimits where
  maxBytes : Nat
  maxDepth : Nat
  maxArrayItems : Nat
  maxObjectMembers : Nat
  maxStringBytes : Nat

def foundationJsonLimits : JsonLimits where
  maxBytes := 1048576
  maxDepth := 16
  maxArrayItems := 64
  maxObjectMembers := 64
  maxStringBytes := 4096

/-! ## The visitor -/

section Visitor

def visitI64 (value : Int) : Except String Value := do
  reject (value.natAbs > maxInteger) "unsafe integral number"
  return .number (.integer value)

def visitU64 (value : Nat) : Except String Value := do
  reject (value > maxInteger) "unsafe integral number"
  return .number (.integer value)

def visitF64 : Double → Except String Value
  | .finite value => do
    reject (value.den = 1 ∧ |value| > maxInteger) "unsafe integral number"
    return .number (.float value)
  | .nonFinite => .error "non-finite numbers are forbidden"

def visitStr (limits : JsonLimits) (value : String) : Except String Value := do
  reject (value.utf8ByteSize > limits.maxStringBytes) "string bound exceeded"
  return .string value

variable (sizeHint : Nat → Option Nat) (limits : JsonLimits)

mutual

def restrictedValue (depth : Nat) (tree : Tree) : Except String Value := do
  reject (depth > limits.maxDepth) "JSON nesting bound exceeded"
  match tree with
  | .null => return .null
  | .bool value => return .bool value
  | .signed value => visitI64 value
  | .unsigned value => visitU64 value
  | .double value => visitF64 value
  | .string value => visitStr limits value
  | .array trees =>
    reject ((sizeHint trees.length).any (· > limits.maxArrayItems)) "array bound exceeded"
    let values ← visitSeq (depth + 1) [] trees
    return .array values
  | .object members =>
    reject ((sizeHint members.length).any (· > limits.maxObjectMembers)) "object bound exceeded"
    let values ← visitMap (depth + 1) [] members
    return .object values

/-- The loop of `visit_seq`; at the limit it only looks whether another element follows. -/
def visitSeq (depth : Nat) (values : List Value) : List Tree → Except String (List Value)
  | [] => .ok values
  | tree :: trees => do
    reject (values.length = limits.maxArrayItems) "array bound exceeded"
    let value ← restrictedValue depth tree
    visitSeq depth (values ++ [value]) trees

/-- The loop of `visit_map`; at the limit it only looks whether another member follows. -/
def visitMap (depth : Nat) (values : Map) : List (String × Tree) → Except String Map
  | [] => .ok values
  | (key, tree) :: members => do
    reject (values.length = limits.maxObjectMembers) "object bound exceeded"
    reject (key.utf8ByteSize > limits.maxStringBytes) "object member name bound exceeded"
    reject (values.containsKey key) "duplicate member"
    let value ← restrictedValue depth tree
    visitMap depth (values.insert key value) members

end

end Visitor

/-! ## The check of a value -/

section Check

variable (limits : JsonLimits)

mutual

def validateJsonSource (depth : Nat) (value : Value) : Except Error Unit := do
  reject (depth > limits.maxDepth) (admission .boundExceeded)
  match value with
  | .null | .bool _ | .number _ => return
  | .string value =>
    reject (value.utf8ByteSize > limits.maxStringBytes) (admission .boundExceeded)
  | .array values =>
    reject (values.length > limits.maxArrayItems) (admission .boundExceeded)
    validateSourceItems (depth + 1) values
  | .object entries =>
    reject (¬(entries.length ≤ limits.maxObjectMembers ∧
        entries.all fun entry => entry.1.utf8ByteSize ≤ limits.maxStringBytes))
      (admission .boundExceeded)
    validateSourceEntries (depth + 1) entries

def validateSourceItems (depth : Nat) : List Value → Except Error Unit
  | [] => .ok ()
  | value :: values => do
    validateJsonSource depth value
    validateSourceItems depth values

def validateSourceEntries (depth : Nat) : List (String × Value) → Except Error Unit
  | [] => .ok ()
  | (_, value) :: entries => do
    validateJsonSource depth value
    validateSourceEntries depth entries

end

end Check

namespace Tree

/-! ## What a tree says -/

def doubleValue : Double → Value
  | .finite value => .number (.float value)
  | .nonFinite => .null

mutual

/-- The value of a tree; of members of one name the last counts. -/
def value : Tree → Value
  | .null => .null
  | .bool value => .bool value
  | .signed value => .number (.integer value)
  | .unsigned value => .number (.integer value)
  | .double value => doubleValue value
  | .string value => .string value
  | .array trees => .array (itemValues trees)
  | .object members => .object (Map.ofMembers (memberValues members))

def itemValues : List Tree → List Value
  | [] => []
  | tree :: trees => tree.value :: itemValues trees

def memberValues : List (String × Tree) → List (String × Value)
  | [] => []
  | (key, tree) :: members => (key, tree.value) :: memberValues members

end

/-- The integral numbers are safe and the others finite. -/
def SafeDouble : Double → Prop
  | .finite value => value.den = 1 → |value| ≤ maxInteger
  | .nonFinite => False

mutual

def Safe : Tree → Prop
  | .null | .bool _ | .string _ => True
  | .signed value => value.natAbs ≤ maxInteger
  | .unsigned value => value ≤ maxInteger
  | .double value => SafeDouble value
  | .array trees => SafeItems trees
  | .object members => SafeMembers members

def SafeItems : List Tree → Prop
  | [] => True
  | tree :: trees => tree.Safe ∧ SafeItems trees

def SafeMembers : List (String × Tree) → Prop
  | [] => True
  | (_, tree) :: members => tree.Safe ∧ SafeMembers members

end

mutual

def Distinct : Tree → Prop
  | .null | .bool _ | .signed _ | .unsigned _ | .double _ | .string _ => True
  | .array trees => DistinctItems trees
  | .object members => (members.map Prod.fst).Nodup ∧ DistinctMembers members

def DistinctItems : List Tree → Prop
  | [] => True
  | tree :: trees => tree.Distinct ∧ DistinctItems trees

def DistinctMembers : List (String × Tree) → Prop
  | [] => True
  | (_, tree) :: members => tree.Distinct ∧ DistinctMembers members

end

end Tree

/-! ## The loops -/

section Loops

variable {sizeHint : Nat → Option Nat} {limits : JsonLimits} {depth : Nat}

theorem Map.containsKey_iff {object : Map} {key : String} :
    object.containsKey key = true ↔ key ∈ object.map Prod.fst := by
  rw [containsKey, Map.get]
  induction object with
  | nil => simp
  | cons entry object ih =>
    rw [List.lookup_cons, List.map_cons, List.mem_cons]
    cases hkey : key == entry.1 with
    | true => simp [eq_of_beq hkey]
    | false =>
      rw [ih]
      exact ⟨.inr, fun h => h.resolve_left (beq_eq_false_iff_ne.mp hkey)⟩

theorem visitSeq_eq_ok {trees : List Tree} {values result : List Value}
    (h : values.length ≤ limits.maxArrayItems) :
    visitSeq sizeHint limits depth values trees = .ok result ↔
      values.length + trees.length ≤ limits.maxArrayItems ∧
      ∃ rest, List.Forall₂ (fun tree value => restrictedValue sizeHint limits depth tree =
      .ok value) trees rest ∧ result = values ++ rest := by
  induction trees generalizing values with
  | nil => simp [visitSeq, h, eq_comm]
  | cons tree trees ih =>
    simp only [visitSeq, Except.bind_eq_ok, reject_eq_ok]
    constructor
    · rintro ⟨_, hroom, value, hvalue, hrest⟩
      have hnext : (values ++ [value]).length ≤ limits.maxArrayItems := by simp; omega
      obtain ⟨hlength, rest, hall, rfl⟩ := (ih hnext).mp hrest
      refine ⟨?_, value :: rest, .cons hvalue hall, by simp⟩
      simp only [List.length_append, List.length_cons, List.length_nil] at hlength ⊢
      omega
    · rintro ⟨hlength, rest, hall, rfl⟩
      obtain ⟨value, others, hvalue, hothers, rfl⟩ := List.forall₂_cons_left_iff.mp hall
      rw [List.length_cons] at hlength
      have hnext : (values ++ [value]).length ≤ limits.maxArrayItems := by simp; omega
      refine ⟨(), by omega, value, hvalue, (ih hnext).mpr ⟨?_, others, hothers, by simp⟩⟩
      simp only [List.length_append, List.length_cons, List.length_nil]
      omega

/-- The members that the loop of an object may still read. -/
structure MembersFit (limits : JsonLimits) (values : Map) (members : List (String × Tree)) :
    Prop where
  count : values.length + members.length ≤ limits.maxObjectMembers
  names : ∀ member ∈ members, member.1.utf8ByteSize ≤ limits.maxStringBytes
  distinct : (members.map Prod.fst).Nodup
  fresh : ∀ member ∈ members, member.1 ∉ values.map Prod.fst

theorem membersFit_cons {values : Map} {key : String} {tree : Tree} {value : Value}
    {members : List (String × Tree)} :
    MembersFit limits values ((key, tree) :: members) ↔
      values.length < limits.maxObjectMembers ∧ key.utf8ByteSize ≤ limits.maxStringBytes ∧
      key ∉ values.map Prod.fst ∧ MembersFit limits (values.insert key value) members := by
  constructor
  · intro h
    obtain ⟨hname, hnames⟩ := List.forall_mem_cons.mp h.names
    obtain ⟨hfresh, hothers⟩ := List.forall_mem_cons.mp h.fresh
    obtain ⟨hrepeat, hdistinct⟩ := List.nodup_cons.mp h.distinct
    have hcount := h.count
    have hperm : (values.insert key value).Perm ((key, value) :: values) := Map.insert_perm hfresh
    rw [List.length_cons] at hcount
    refine ⟨by omega, hname, hfresh, ⟨?_, hnames, hdistinct, fun member hmember hmem => ?_⟩⟩
    · rw [hperm.length_eq, List.length_cons]
      omega
    · rcases List.mem_cons.mp ((hperm.map Prod.fst).mem_iff.mp hmem) with hsame | hmem
      · exact hrepeat (hsame ▸ List.mem_map_of_mem hmember)
      · exact hothers member hmember hmem
  · rintro ⟨hroom, hname, hfresh, h⟩
    have hperm : (values.insert key value).Perm ((key, value) :: values) := Map.insert_perm hfresh
    have hkept {name : String} (hfree : name ∉ (values.insert key value).map Prod.fst) :
        name ≠ key ∧ name ∉ values.map Prod.fst := by
      rwa [(hperm.map Prod.fst).mem_iff, List.map_cons, List.mem_cons, not_or] at hfree
    have hcount := h.count
    rw [hperm.length_eq, List.length_cons] at hcount
    refine ⟨?_, List.forall_mem_cons.mpr ⟨hname, h.names⟩, ?_, ?_⟩
    · rw [List.length_cons]
      omega
    · refine List.nodup_cons.mpr ⟨fun hrepeat => ?_, h.distinct⟩
      obtain ⟨member, hmember, hsame⟩ := List.mem_map.mp hrepeat
      exact (hkept (h.fresh member hmember)).1 hsame
    · exact List.forall_mem_cons.mpr
        ⟨hfresh, fun member hmember => (hkept (h.fresh member hmember)).2⟩

def ReadsMember (sizeHint : Nat → Option Nat) (limits : JsonLimits) (depth : Nat)
    (member : String × Tree) (entry : String × Value) : Prop :=
  entry.1 = member.1 ∧ restrictedValue sizeHint limits depth member.2 = .ok entry.2

theorem visitMap_eq_ok {members : List (String × Tree)} {values result : Map}
    (h : values.length ≤ limits.maxObjectMembers) :
    visitMap sizeHint limits depth values members = .ok result ↔
      MembersFit limits values members ∧
      ∃ entries, List.Forall₂ (ReadsMember sizeHint limits depth) members entries ∧
        result = entries.foldl (fun object entry => object.insert entry.1 entry.2) values := by
  induction members generalizing values with
  | nil =>
    have hfit : MembersFit limits values [] := ⟨h, nofun, List.nodup_nil, nofun⟩
    simp [visitMap, hfit, eq_comm]
  | cons member members ih =>
    obtain ⟨key, tree⟩ := member
    simp only [visitMap, Except.bind_eq_ok, reject_eq_ok, Map.containsKey_iff]
    constructor
    · rintro ⟨_, hroom, _, hname, _, hfresh, value, hvalue, hrest⟩
      have hnext : (values.insert key value).length ≤ limits.maxObjectMembers := by
        rw [(Map.insert_perm hfresh).length_eq, List.length_cons]
        omega
      obtain ⟨hfit, entries, hall, rfl⟩ := (ih hnext).mp hrest
      refine ⟨membersFit_cons.mpr ⟨by omega, by omega, hfresh, hfit⟩, (key, value) :: entries,
        ?_, rfl⟩
      exact .cons ⟨rfl, hvalue⟩ hall
    · rintro ⟨hfit, entries, hall, rfl⟩
      obtain ⟨⟨name, value⟩, others, ⟨rfl, hvalue⟩, hothers, rfl⟩ :=
        List.forall₂_cons_left_iff.mp hall
      obtain ⟨hroom, hname, hfresh, hfit⟩ := membersFit_cons.mp hfit
      have hnext : (values.insert name value).length ≤ limits.maxObjectMembers := by
        rw [(Map.insert_perm hfresh).length_eq, List.length_cons]
        omega
      exact ⟨(), by omega, (), by omega, (), hfresh, value, hvalue,
        (ih hnext).mpr ⟨hfit, others, hothers, rfl⟩⟩

end Loops

/-! ## The tree under the limits -/

section Agreement

variable {sizeHint : Nat → Option Nat} {limits : JsonLimits}

theorem validateSourceItems_eq_ok {depth : Nat} {values : List Value} :
    validateSourceItems limits depth values = .ok () ↔
      ∀ value ∈ values, validateJsonSource limits depth value = .ok () := by
  induction values with
  | nil => simp [validateSourceItems]
  | cons value values ih =>
    rw [validateSourceItems, Except.bind_eq_ok, List.forall_mem_cons, ← ih]
    exact ⟨fun ⟨_, hvalue, hrest⟩ => ⟨hvalue, hrest⟩, fun ⟨hvalue, hrest⟩ => ⟨(), hvalue, hrest⟩⟩

theorem validateSourceEntries_eq_ok {depth : Nat} {entries : List (String × Value)} :
    validateSourceEntries limits depth entries = .ok () ↔
      ∀ entry ∈ entries, validateJsonSource limits depth entry.2 = .ok () := by
  induction entries with
  | nil => simp [validateSourceEntries]
  | cons entry entries ih =>
    rw [validateSourceEntries, Except.bind_eq_ok, List.forall_mem_cons, ← ih]
    exact ⟨fun ⟨_, hvalue, hrest⟩ => ⟨hvalue, hrest⟩, fun ⟨hvalue, hrest⟩ => ⟨(), hvalue, hrest⟩⟩

theorem validateJsonSource_array {depth : Nat} {values : List Value} :
    validateJsonSource limits depth (.array values) = .ok () ↔
      depth ≤ limits.maxDepth ∧ values.length ≤ limits.maxArrayItems ∧
      ∀ value ∈ values, validateJsonSource limits (depth + 1) value = .ok () := by
  rw [validateJsonSource]
  simp [Except.bind_eq_ok, validateSourceItems_eq_ok]

theorem validateJsonSource_object {depth : Nat} {entries : List (String × Value)} :
    validateJsonSource limits depth (.object entries) = .ok () ↔
      depth ≤ limits.maxDepth ∧ entries.length ≤ limits.maxObjectMembers ∧
      (∀ entry ∈ entries, entry.1.utf8ByteSize ≤ limits.maxStringBytes) ∧
      ∀ entry ∈ entries, validateJsonSource limits (depth + 1) entry.2 = .ok () := by
  rw [validateJsonSource]
  simp only [Except.bind_eq_ok, validateSourceEntries_eq_ok, reject_eq_ok, not_not, not_lt,
    List.all_eq_true, decide_eq_true_eq, exists_const, and_assoc]

theorem validateJsonSource_perm {depth : Nat} {entries entries' : List (String × Value)}
    (hperm : entries.Perm entries') :
    validateJsonSource limits depth (.object entries) = .ok () ↔
      validateJsonSource limits depth (.object entries') = .ok () := by
  simp only [validateJsonSource_object, hperm.length_eq, hperm.mem_iff]

namespace Tree

theorem itemValues_eq (trees : List Tree) : itemValues trees = trees.map value := by
  induction trees with
  | nil => rfl
  | cons tree trees ih => rw [itemValues, ih, List.map_cons]

theorem memberValues_eq (members : List (String × Tree)) :
    memberValues members = members.map fun member => (member.1, member.2.value) := by
  induction members with
  | nil => rfl
  | cons member members ih => rw [memberValues, ih, List.map_cons]

theorem itemValues_length (trees : List Tree) : (itemValues trees).length = trees.length := by
  rw [itemValues_eq, List.length_map]

theorem memberValues_length (members : List (String × Tree)) :
    (memberValues members).length = members.length := by
  rw [memberValues_eq, List.length_map]

theorem memberValues_names (members : List (String × Tree)) :
    (memberValues members).map Prod.fst = members.map Prod.fst := by
  rw [memberValues_eq, List.map_map]
  rfl

end Tree

mutual

theorem Tree.value_ordered : ∀ tree : Tree, tree.value.Ordered
  | .null | .bool _ | .signed _ | .unsigned _ | .string _ | .double (.finite _)
  | .double .nonFinite => by simp only [Tree.value, Tree.doubleValue, Value.Ordered]
  | .array trees => by
    rw [Tree.value, Value.ordered_array]
    exact Tree.itemValues_ordered trees
  | .object members => by
    rw [Tree.value, Value.ordered_object]
    refine ⟨Map.ofMembers_ordered, fun entry hentry => ?_⟩
    exact Tree.memberValues_ordered members entry (Map.of_mem_ofMembers hentry)

theorem Tree.itemValues_ordered : ∀ (trees : List Tree), ∀ value ∈ Tree.itemValues trees,
    value.Ordered
  | [] => nofun
  | tree :: trees => List.forall_mem_cons.mpr
    ⟨Tree.value_ordered tree, Tree.itemValues_ordered trees⟩

theorem Tree.memberValues_ordered : ∀ (members : List (String × Tree)),
    ∀ entry ∈ Tree.memberValues members, entry.2.Ordered
  | [] => nofun
  | (_, tree) :: members => List.forall_mem_cons.mpr
    ⟨Tree.value_ordered tree, Tree.memberValues_ordered members⟩

end

theorem hint_of_le (hhint : ∀ size hint, sizeHint size = some hint → hint ≤ size) {size limit : Nat}
    (h : size ≤ limit) : ¬((sizeHint size).any (· > limit)) = true := by
  cases hcase : sizeHint size with
  | none => simp
  | some hint =>
    have hle := hhint size hint hcase
    simp only [Option.any_some, decide_eq_true_eq]
    omega

theorem membersFit_nil {members : List (String × Tree)} :
    MembersFit limits [] members ↔ members.length ≤ limits.maxObjectMembers ∧
      (∀ member ∈ members, member.1.utf8ByteSize ≤ limits.maxStringBytes) ∧
      (members.map Prod.fst).Nodup := by
  constructor
  · intro h
    have hcount := h.count
    rw [List.length_nil, zero_add] at hcount
    exact ⟨hcount, h.names, h.distinct⟩
  · rintro ⟨hcount, hnames, hdistinct⟩
    refine ⟨?_, hnames, hdistinct, fun _ _ => List.not_mem_nil⟩
    rw [List.length_nil, zero_add]
    exact hcount

section Events

variable {depth : Nat} {value : Value}

theorem reject_return {ε α : Type} {condition : Prop} [Decidable condition] {error : ε} {a b : α} :
    (reject condition error >>= fun _ => pure a) = .ok b ↔ ¬condition ∧ b = a := by
  simp only [Except.bind_eq_ok, reject_eq_ok, exists_const, Except.pure_eq, Except.ok.injEq,
    @eq_comm _ a]

theorem visitI64_eq_ok {number : Int} :
    visitI64 number = .ok value ↔ number.natAbs ≤ maxInteger ∧
    value = .number (.integer number) := by
  rw [visitI64, reject_return, not_lt]

theorem visitU64_eq_ok {number : Nat} :
    visitU64 number = .ok value ↔ number ≤ maxInteger ∧ value = .number (.integer number) := by
  rw [visitU64, reject_return, not_lt]

theorem visitF64_eq_ok {number : Double} :
    visitF64 number = .ok value ↔ Tree.SafeDouble number ∧ value = Tree.doubleValue number := by
  cases number with
  | finite number =>
    rw [visitF64, reject_return, not_and, not_lt]
    rfl
  | nonFinite => simp [visitF64, Tree.SafeDouble]

theorem visitStr_eq_ok {text : String} : visitStr limits text = .ok value ↔
    text.utf8ByteSize ≤ limits.maxStringBytes ∧ value = .string text := by
  rw [visitStr, reject_return, not_lt]

theorem validateJsonSource_string {text : String} :
    validateJsonSource limits depth (.string text) = .ok () ↔
      depth ≤ limits.maxDepth ∧ text.utf8ByteSize ≤ limits.maxStringBytes := by
  rw [validateJsonSource]
  simp [Except.bind_eq_ok]

theorem validateJsonSource_number {number : Number} :
    validateJsonSource limits depth (.number number) = .ok () ↔ depth ≤ limits.maxDepth := by
  rw [validateJsonSource]
  simp [Except.bind_eq_ok]

theorem validateJsonSource_doubleValue {number : Double} :
    validateJsonSource limits depth (Tree.doubleValue number) = .ok () ↔
      depth ≤ limits.maxDepth := by
  cases number with
  | finite number => exact validateJsonSource_number
  | nonFinite =>
    rw [Tree.doubleValue, validateJsonSource]
    simp [Except.bind_eq_ok]

end Events

section Reading

variable (hhint : ∀ size hint, sizeHint size = some hint → hint ≤ size) {depth : Nat}
  {value : Value}

include hhint

theorem restrictedValue_array {trees : List Tree} :
    restrictedValue sizeHint limits depth (.array trees) = .ok value ↔
      depth ≤ limits.maxDepth ∧ trees.length ≤ limits.maxArrayItems ∧
      ∃ values, List.Forall₂
        (fun tree value => restrictedValue sizeHint limits (depth + 1) tree = .ok value)
        trees values ∧ value = .array values := by
  rw [restrictedValue]
  simp only [Except.bind_eq_ok, reject_eq_ok, exists_const, gt_iff_lt, not_lt, Except.pure_eq,
    Except.ok.injEq, @visitSeq_eq_ok _ _ _ _ [] _ (Nat.zero_le _), List.length_nil, zero_add,
    List.nil_append]
  constructor
  · rintro ⟨hdepth, _, _, ⟨hlength, values, hall, rfl⟩, rfl⟩
    exact ⟨hdepth, hlength, _, hall, rfl⟩
  · rintro ⟨hdepth, hlength, values, hall, rfl⟩
    exact ⟨hdepth, hint_of_le hhint hlength, values, ⟨hlength, values, hall, rfl⟩, rfl⟩

theorem restrictedValue_object {members : List (String × Tree)} :
    restrictedValue sizeHint limits depth (.object members) = .ok value ↔
      depth ≤ limits.maxDepth ∧ members.length ≤ limits.maxObjectMembers ∧
      (∀ member ∈ members, member.1.utf8ByteSize ≤ limits.maxStringBytes) ∧
      (members.map Prod.fst).Nodup ∧
      ∃ entries, List.Forall₂ (ReadsMember sizeHint limits (depth + 1)) members entries ∧
        value = .object (Map.ofMembers entries) := by
  rw [restrictedValue]
  simp only [Except.bind_eq_ok, reject_eq_ok, exists_const, gt_iff_lt, not_lt, Except.pure_eq,
    Except.ok.injEq, @visitMap_eq_ok _ _ _ _ [] _ (Nat.zero_le _), membersFit_nil]
  simp only [Map.ofMembers]
  constructor
  · rintro ⟨hdepth, _, _, ⟨⟨hlength, hnames, hdistinct⟩, entries, hall, rfl⟩, rfl⟩
    exact ⟨hdepth, hlength, hnames, hdistinct, entries, hall, rfl⟩
  · rintro ⟨hdepth, hlength, hnames, hdistinct, entries, hall, rfl⟩
    exact ⟨hdepth, hint_of_le hhint hlength, _,
      ⟨⟨hlength, hnames, hdistinct⟩, entries, hall, rfl⟩, rfl⟩

end Reading

theorem validateJsonSource_members {depth : Nat} {members : List (String × Tree)}
    (h : (members.map Prod.fst).Nodup) :
    validateJsonSource limits depth (.object (Map.ofMembers (Tree.memberValues members))) = .ok () ↔
      depth ≤ limits.maxDepth ∧ members.length ≤ limits.maxObjectMembers ∧
      (∀ member ∈ members, member.1.utf8ByteSize ≤ limits.maxStringBytes) ∧
      ∀ entry ∈ Tree.memberValues members,
        validateJsonSource limits (depth + 1) entry.2 = .ok () := by
  have hperm := @Map.ofMembers_perm (Tree.memberValues members)
    (by rw [Tree.memberValues_names]; exact h)
  have hnames : (∀ name ∈ (Tree.memberValues members).map Prod.fst,
      name.utf8ByteSize ≤ limits.maxStringBytes) ↔
      ∀ name ∈ members.map Prod.fst, name.utf8ByteSize ≤ limits.maxStringBytes := by
    rw [Tree.memberValues_names]
  rw [List.forall_mem_map, List.forall_mem_map] at hnames
  rw [validateJsonSource_perm hperm, validateJsonSource_object, Tree.memberValues_length, hnames]

mutual

theorem restrictedValue_eq_ok (hhint : ∀ size hint, sizeHint size = some hint → hint ≤ size) :
    ∀ (tree : Tree) {depth : Nat} {value : Value},
      restrictedValue sizeHint limits depth tree = .ok value ↔
        tree.Distinct ∧ tree.Safe ∧ value = tree.value ∧
        validateJsonSource limits depth tree.value = .ok ()
  | .null, depth, value | .bool _, depth, value => by
    rw [restrictedValue, Tree.value, validateJsonSource]
    simp only [Except.bind_eq_ok, reject_eq_ok, exists_const, Except.pure_eq, Except.ok.injEq,
      Tree.Distinct, Tree.Safe]
    tauto
  | .signed number, depth, value => by
    rw [restrictedValue, Tree.value, validateJsonSource_number]
    simp only [Except.bind_eq_ok, reject_eq_ok, exists_const, visitI64_eq_ok, gt_iff_lt, not_lt,
      Tree.Distinct, Tree.Safe]
    tauto
  | .unsigned number, depth, value => by
    rw [restrictedValue, Tree.value, validateJsonSource_number]
    simp only [Except.bind_eq_ok, reject_eq_ok, exists_const, visitU64_eq_ok, gt_iff_lt, not_lt,
      Tree.Distinct, Tree.Safe]
    tauto
  | .double number, depth, value => by
    rw [restrictedValue, Tree.value, validateJsonSource_doubleValue]
    simp only [Except.bind_eq_ok, reject_eq_ok, exists_const, visitF64_eq_ok, gt_iff_lt, not_lt,
      Tree.Distinct, Tree.Safe]
    tauto
  | .string text, depth, value => by
    rw [restrictedValue, Tree.value, validateJsonSource_string]
    simp only [Except.bind_eq_ok, reject_eq_ok, exists_const, visitStr_eq_ok, gt_iff_lt, not_lt,
      Tree.Distinct, Tree.Safe]
    tauto
  | .array trees, depth, value => by
    rw [restrictedValue_array hhint, Tree.value, validateJsonSource_array, Tree.itemValues_length,
      Tree.Distinct, Tree.Safe]
    simp only [forall₂_items hhint trees]
    constructor
    · rintro ⟨hdepth, hlength, _, ⟨hdistinct, hsafe, rfl, hvalid⟩, rfl⟩
      exact ⟨hdistinct, hsafe, rfl, hdepth, hlength, hvalid⟩
    · rintro ⟨hdistinct, hsafe, rfl, hdepth, hlength, hvalid⟩
      exact ⟨hdepth, hlength, _, ⟨hdistinct, hsafe, rfl, hvalid⟩, rfl⟩
  | .object members, depth, value => by
    rw [restrictedValue_object hhint, Tree.value, Tree.Distinct, Tree.Safe]
    simp only [forall₂_members hhint members]
    constructor
    · rintro ⟨hdepth, hlength, hnames, hnodup, _, ⟨hdistinct, hsafe, rfl, hvalid⟩, rfl⟩
      exact ⟨⟨hnodup, hdistinct⟩, hsafe, rfl,
        (validateJsonSource_members hnodup).mpr ⟨hdepth, hlength, hnames, hvalid⟩⟩
    · rintro ⟨⟨hnodup, hdistinct⟩, hsafe, rfl, hvalid⟩
      obtain ⟨hdepth, hlength, hnames, hvalid⟩ := (validateJsonSource_members hnodup).mp hvalid
      exact ⟨hdepth, hlength, hnames, hnodup, _, ⟨hdistinct, hsafe, rfl, hvalid⟩, rfl⟩

theorem forall₂_items (hhint : ∀ size hint, sizeHint size = some hint → hint ≤ size) :
    ∀ (trees : List Tree) {depth : Nat} {values : List Value},
      List.Forall₂ (fun tree value => restrictedValue sizeHint limits depth tree = .ok value)
          trees values ↔
        Tree.DistinctItems trees ∧ Tree.SafeItems trees ∧ values = Tree.itemValues trees ∧
        ∀ value ∈ Tree.itemValues trees, validateJsonSource limits depth value = .ok ()
  | [], depth, values => by
    simp [Tree.DistinctItems, Tree.SafeItems, Tree.itemValues]
  | tree :: trees, depth, values => by
    rw [List.forall₂_cons_left_iff]
    simp only [restrictedValue_eq_ok hhint tree, forall₂_items hhint trees, Tree.DistinctItems,
      Tree.SafeItems, Tree.itemValues, List.forall_mem_cons]
    constructor
    · rintro ⟨_, _, ⟨hdistinct, hsafe, rfl, hvalid⟩, ⟨hdistincts, hsafes, rfl, hvalids⟩, rfl⟩
      exact ⟨⟨hdistinct, hdistincts⟩, ⟨hsafe, hsafes⟩, rfl, hvalid, hvalids⟩
    · rintro ⟨⟨hdistinct, hdistincts⟩, ⟨hsafe, hsafes⟩, rfl, hvalid, hvalids⟩
      exact ⟨_, _, ⟨hdistinct, hsafe, rfl, hvalid⟩, ⟨hdistincts, hsafes, rfl, hvalids⟩, rfl⟩

theorem forall₂_members (hhint : ∀ size hint, sizeHint size = some hint → hint ≤ size) :
    ∀ (members : List (String × Tree)) {depth : Nat} {entries : List (String × Value)},
      List.Forall₂ (ReadsMember sizeHint limits depth) members entries ↔
        Tree.DistinctMembers members ∧ Tree.SafeMembers members ∧
        entries = Tree.memberValues members ∧
        ∀ entry ∈ Tree.memberValues members, validateJsonSource limits depth entry.2 = .ok ()
  | [], depth, entries => by
    simp [Tree.DistinctMembers, Tree.SafeMembers, Tree.memberValues]
  | (key, tree) :: members, depth, entries => by
    rw [List.forall₂_cons_left_iff]
    simp only [ReadsMember, restrictedValue_eq_ok hhint tree, forall₂_members hhint members,
      Tree.DistinctMembers, Tree.SafeMembers, Tree.memberValues, List.forall_mem_cons]
    constructor
    · rintro ⟨⟨_, _⟩, _, ⟨rfl, hdistinct, hsafe, rfl, hvalid⟩, ⟨hdistincts, hsafes, rfl, hvalids⟩,
        rfl⟩
      exact ⟨⟨hdistinct, hdistincts⟩, ⟨hsafe, hsafes⟩, rfl, hvalid, hvalids⟩
    · rintro ⟨⟨hdistinct, hdistincts⟩, ⟨hsafe, hsafes⟩, rfl, hvalid, hvalids⟩
      exact ⟨_, _, ⟨rfl, hdistinct, hsafe, rfl, hvalid⟩, ⟨hdistincts, hsafes, rfl, hvalids⟩, rfl⟩

end

/-- The limits of the visitor are those of the check: it accepts the trees of distinct members and
safe numbers whose value the check accepts, and what it reads the check accepts. -/
theorem streaming_limits_agree (hhint : ∀ size hint, sizeHint size = some hint → hint ≤ size)
    (limits : JsonLimits) (depth : Nat) (tree : Tree) :
    ((∃ value, restrictedValue sizeHint limits depth tree = .ok value) ↔
      tree.Distinct ∧ tree.Safe ∧ validateJsonSource limits depth tree.value = .ok ()) ∧
    ∀ value, restrictedValue sizeHint limits depth tree = .ok value →
      value = tree.value ∧ validateJsonSource limits depth value = .ok () := by
  constructor
  · constructor
    · rintro ⟨value, hvalue⟩
      obtain ⟨hdistinct, hsafe, _, hvalid⟩ := (restrictedValue_eq_ok hhint tree).mp hvalue
      exact ⟨hdistinct, hsafe, hvalid⟩
    · rintro ⟨hdistinct, hsafe, hvalid⟩
      exact ⟨tree.value, (restrictedValue_eq_ok hhint tree).mpr ⟨hdistinct, hsafe, rfl, hvalid⟩⟩
  · intro value hvalue
    obtain ⟨_, _, rfl, hvalid⟩ := (restrictedValue_eq_ok hhint tree).mp hvalue
    exact ⟨rfl, hvalid⟩

/-- A text of `serde_json` gives no size hint. -/
theorem streaming_limits_of_text : ∃ value, restrictedValue (fun _ => none) foundationJsonLimits 0
    (.object [("b", .unsigned 1), ("a", .array [.null])]) = .ok value := by
  refine (streaming_limits_agree (fun _ _ h => ?_) foundationJsonLimits 0 _).1.mpr ⟨?_, ?_, rfl⟩
  · cases h
  · simp [Tree.Distinct, Tree.DistinctMembers, Tree.DistinctItems]
  · simp [Tree.Safe, Tree.SafeMembers, Tree.SafeItems, maxInteger]

end Agreement

end Json

end LicoArc
