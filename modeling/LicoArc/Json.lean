import LicoArc.Encoding

/-!
# JSON values

The values of `serde_json` with their equality, and the canonical text that the
size limits of a record are measured on. An object is the ascending entry list
of its `BTreeMap`; a finite double is its rational value, so that the two zeros
are one. The decimal text of a double comes from a third-party crate and is a
parameter.
-/

namespace LicoArc

namespace Json

inductive Number
  | integer (value : Int)
  | float (value : Rat)
  deriving DecidableEq

inductive Value
  | null
  | bool (value : Bool)
  | number (value : Number)
  | string (value : String)
  | array (values : List Value)
  | object (entries : List (String × Value))

abbrev Map := List (String × Value)

namespace Value

mutual

def beq : Value → Value → Bool
  | .null, .null => true
  | .bool a, .bool b => a == b
  | .number a, .number b => a == b
  | .string a, .string b => a == b
  | .array a, .array b => beqItems a b
  | .object a, .object b => beqEntries a b
  | _, _ => false

def beqItems : List Value → List Value → Bool
  | [], [] => true
  | a :: as, b :: bs => beq a b && beqItems as bs
  | _, _ => false

def beqEntries : List (String × Value) → List (String × Value) → Bool
  | [], [] => true
  | (k, a) :: as, (l, b) :: bs => k == l && beq a b && beqEntries as bs
  | _, _ => false

end

mutual

theorem beq_iff_eq : ∀ a b : Value, beq a b = true ↔ a = b := by
  intro a b
  cases a <;> cases b <;> simp [beq, beqItems_iff_eq, beqEntries_iff_eq]

theorem beqItems_iff_eq : ∀ as bs : List Value, beqItems as bs = true ↔ as = bs
  | [], bs => by cases bs <;> simp [beqItems]
  | a :: as, [] => by simp [beqItems]
  | a :: as, b :: bs => by
    simp [beqItems, beq_iff_eq a b, beqItems_iff_eq as bs]

theorem beqEntries_iff_eq : ∀ as bs : List (String × Value), beqEntries as bs = true ↔ as = bs
  | [], bs => by cases bs <;> simp [beqEntries]
  | (k, a) :: as, [] => by simp [beqEntries]
  | (k, a) :: as, (l, b) :: bs => by
    simp [beqEntries, beq_iff_eq a b, beqEntries_iff_eq as bs, and_assoc]

end

instance : DecidableEq Value := fun a b => decidable_of_iff _ (beq_iff_eq a b)

def asStr : Value → Option String
  | .string value => some value
  | _ => none

def asArray : Value → Option (List Value)
  | .array values => some values
  | _ => none

def asObject : Value → Option Map
  | .object entries => some entries
  | _ => none

def asU64 : Value → Option Nat
  | .number (.integer value) => if 0 ≤ value ∧ value < 2 ^ 64 then some value.toNat else none
  | _ => none

def isBoolean : Value → Bool
  | .bool _ => true
  | _ => false

theorem asStr_eq_some {value : Value} {text : String} :
    value.asStr = some text ↔ value = .string text := by
  cases value <;> simp [asStr]

theorem asArray_eq_some {value : Value} {values : List Value} :
    value.asArray = some values ↔ value = .array values := by
  cases value <;> simp [asArray]

theorem asObject_eq_some {value : Value} {entries : Map} :
    value.asObject = some entries ↔ value = .object entries := by
  cases value <;> simp [asObject]

end Value

namespace Map

def get (object : Map) (key : String) : Option Value := object.lookup key

def containsKey (object : Map) (key : String) : Bool := (object.get key).isSome

end Map

def maxSourceBytes : Nat := 4194304
def maxInteger : Nat := 9007199254740991

def admission (code : ErrorCode) : Error := .terminal code .admission

def escaped (c : Char) : List Char :=
  if c = '"' then ['\\', '"']
  else if c = '\\' then ['\\', '\\']
  else if c.toNat = 8 then ['\\', 'b']
  else if c.toNat = 9 then ['\\', 't']
  else if c.toNat = 10 then ['\\', 'n']
  else if c.toNat = 12 then ['\\', 'f']
  else if c.toNat = 13 then ['\\', 'r']
  else if c.toNat < 32 then
    ['\\', 'u', '0', '0', Nat.digitChar (c.toNat / 16), Nat.digitChar (c.toNat % 16)]
  else [c]

def quoted (text : String) : String := String.ofList ('"' :: text.toList.flatMap escaped ++ ['"'])

def encodeUtf16 (text : String) : List Nat :=
  text.toList.flatMap fun c =>
    if c.toNat < 0x10000 then [c.toNat]
    else [0xd800 + (c.toNat - 0x10000) / 0x400, 0xdc00 + (c.toNat - 0x10000) % 0x400]

def pushBounded (maximum : Nat) (output value : String) : Except Error String :=
  if output.utf8ByteSize + value.utf8ByteSize ≤ maximum then .ok (output ++ value)
  else .error (admission .boundExceeded)

def separate (maximum : Nat) (first : Bool) (output : String) : Except Error String :=
  if first then .ok output else pushBounded maximum output ","

/-- The entries of an object in the order of their UTF-16 names. -/
def sortEntries {α : Type} (entries : List (String × α)) : List (String × α) :=
  entries.insertionSort fun left right => encodeUtf16 left.1 ≤ encodeUtf16 right.1

/-- The members of an object, each by its name and the writer of its value. -/
def appendEntries (maximum : Nat) (first : Bool) :
    List (String × (String → Except Error String)) → String → Except Error String
  | [], output => .ok output
  | (key, append) :: entries, output => do
    let output ← separate maximum first output
    let output ← pushBounded maximum output (quoted key)
    let output ← pushBounded maximum output ":"
    let output ← append output
    appendEntries maximum false entries output

section

variable (formatFinite : Rat → String)

def canonicalNumber : Number → Option String
  | .integer value => if value.natAbs ≤ maxInteger then some (toString value) else none
  | .float value =>
    if value.den ≠ 1 ∨ |value| ≤ maxInteger then
      some (if value = 0 then "0" else formatFinite value)
    else none

mutual

def appendCanonicalJson (maximum : Nat) : Value → String → Except Error String
  | .null, output => pushBounded maximum output "null"
  | .bool value, output => pushBounded maximum output (if value then "true" else "false")
  | .number value, output => do
    let number ← okOr (admission .invalidRepresentation) (canonicalNumber formatFinite value)
    pushBounded maximum output number
  | .string value, output => pushBounded maximum output (quoted value)
  | .array values, output => do
    let output ← pushBounded maximum output "["
    let output ← appendItems maximum true values output
    pushBounded maximum output "]"
  | .object entries, output => do
    let output ← pushBounded maximum output "\x7b"
    let output ← appendEntries maximum true (sortEntries (entryAppenders maximum entries)) output
    pushBounded maximum output "\x7d"

def appendItems (maximum : Nat) (first : Bool) : List Value → String → Except Error String
  | [], output => .ok output
  | value :: values, output => do
    let output ← separate maximum first output
    let output ← appendCanonicalJson maximum value output
    appendItems maximum false values output

def entryAppenders (maximum : Nat) :
    List (String × Value) → List (String × (String → Except Error String))
  | [] => []
  | (key, value) :: entries =>
    (key, appendCanonicalJson maximum value) :: entryAppenders maximum entries

end

def canonicalJsonBounded (value : Value) (maximum : Nat) : Except Error String :=
  appendCanonicalJson formatFinite maximum value ""

def canonicalJson (value : Value) : Except Error String :=
  canonicalJsonBounded formatFinite value maxSourceBytes

end

end Json

end LicoArc
