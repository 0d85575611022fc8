import LicoArc.Transport

/-!
# Closed records

The fields of a record whose labels are closed: what each check says about the
entry that it reads.
-/

namespace LicoArc

open Encoding (lookupEntry)

namespace Reliable

open Transport (closedMap unsigned boundedUnsigned)

def rangedBytes (value : Option CborValue) (minimum maximum : Nat) : Except Error Unit :=
  match value with
  | some (.bytes value) =>
    reject (value.length < minimum ∨ maximum < value.length) (.validation .boundExceeded)
  | _ => .error (.validation .invalidRepresentation)

def fixedBytes (value : Option CborValue) (length : Nat) : Except Error Unit :=
  rangedBytes value length length

def optionalBoundedUnsigned (value : Option CborValue) (maximum : Nat) : Except Error Unit :=
  if value.isSome then boundedUnsigned value maximum else .ok ()

def optionalFixedBytes (value : Option CborValue) (length : Nat) : Except Error Unit :=
  if value.isSome then fixedBytes value length else .ok ()

variable {value : Option CborValue} {u : Unit}

theorem closedMap_eq_ok {value : CborValue} {last : Nat} {required : List Nat}
    {values : List (Nat × CborValue)} :
    closedMap value last required = .ok values ↔ value = .map values ∧
      (∀ entry ∈ values, entry.1 ≤ last) ∧ ∀ key ∈ required, lookupEntry key values ≠ none := by
  cases value with
  | map found =>
    simp only [closedMap, Except.bind_eq_ok, reject_eq_ok, exists_const, Except.pure_eq,
      Except.ok.injEq, CborValue.map.injEq, not_or, not_exists, not_and, not_lt,
      Option.isNone_iff_eq_none]
    constructor
    · rintro ⟨h, rfl⟩
      exact ⟨rfl, h⟩
    · rintro ⟨rfl, h⟩
      exact ⟨h, rfl⟩
  | null | bool | unsigned | bytes | text | array => simp [closedMap]

theorem unsigned_eq_ok {n : Nat} : unsigned value = .ok n ↔ value = some (.unsigned n) := by
  cases value with
  | none => simp [unsigned]
  | some found => cases found <;> simp [unsigned]

theorem boundedUnsigned_eq_ok {maximum : Nat} :
    boundedUnsigned value maximum = .ok u ↔ ∃ n ≤ maximum, value = some (.unsigned n) := by
  simp only [boundedUnsigned, Except.bind_eq_ok, unsigned_eq_ok, reject_eq_ok, not_lt, gt_iff_lt]
  exact exists_congr fun n => and_comm

theorem fixedBytes_eq_ok {n : Nat} :
    fixedBytes value n = .ok u ↔ ∃ bytes : FixedBytes n, value = some (.bytes bytes.toList) := by
  have hlength (bytes : Bytes) :
      ¬(bytes.length < n ∨ n < bytes.length) ↔ ∃ fixed : FixedBytes n, bytes = fixed.toList := by
    rw [lt_or_lt_iff_ne, not_not]
    constructor
    · intro h
      exact ⟨⟨bytes, h⟩, rfl⟩
    · rintro ⟨fixed, rfl⟩
      exact fixed.toList_length
  cases value with
  | none => simp [fixedBytes, rangedBytes]
  | some found =>
    cases found with
    | bytes found =>
      rw [fixedBytes, rangedBytes, reject_eq_ok, hlength]
      simp
    | null | bool | unsigned | map | text | array => simp [fixedBytes, rangedBytes]

theorem optionalBoundedUnsigned_eq_ok {maximum : Nat} :
    optionalBoundedUnsigned value maximum = .ok u ↔
      ∃ n : Option Nat, (∀ k ∈ n, k ≤ maximum) ∧ value = n.map .unsigned := by
  rw [optionalBoundedUnsigned]
  cases value with
  | none => exact iff_of_true rfl ⟨none, nofun, rfl⟩
  | some found =>
    rw [if_pos Option.isSome_some, boundedUnsigned_eq_ok]
    constructor
    · rintro ⟨n, hn, hfound⟩
      exact ⟨some n, by simpa using hn, hfound⟩
    · rintro ⟨n, hn, hfound⟩
      cases n with
      | none => cases hfound
      | some n => exact ⟨n, hn n rfl, hfound⟩

theorem optionalFixedBytes_eq_ok {n : Nat} :
    optionalFixedBytes value n = .ok u ↔
      ∃ bytes : Option (FixedBytes n), value = bytes.map fun bytes => .bytes bytes.toList := by
  rw [optionalFixedBytes]
  cases value with
  | none => exact iff_of_true rfl ⟨none, rfl⟩
  | some found =>
    rw [if_pos Option.isSome_some, fixedBytes_eq_ok]
    constructor
    · rintro ⟨bytes, hfound⟩
      exact ⟨some bytes, hfound⟩
    · rintro ⟨bytes, hfound⟩
      cases bytes with
      | none => cases hfound
      | some bytes => exact ⟨bytes, hfound⟩

end Reliable

end LicoArc
