import Mathlib

/-!
# Byte strings

Slices and `Vec<u8>` are lists of bytes, a fixed array `[u8; N]` is a byte
vector that carries its length. A domain constant is the ASCII text of the
source followed by its NUL byte.
-/

namespace LicoArc

abbrev Bytes := List UInt8

abbrev FixedBytes (n : Nat) := List.Vector UInt8 n

/-- The equality of identities, under one name in every module. -/
instance : @LawfulBEq (FixedBytes 16) instBEqOfDecidableEq := inferInstance

namespace FixedBytes

def zero (n : Nat) : FixedBytes n := List.Vector.replicate n 0

/-- `<[u8; N]>::try_from` on a slice. -/
def ofBytes? (n : Nat) (bytes : Bytes) : Option (FixedBytes n) :=
  if h : bytes.length = n then some ⟨bytes, h⟩ else none

theorem ofBytes?_toList {n : Nat} (v : FixedBytes n) : ofBytes? n v.toList = some v := by
  simp only [ofBytes?, List.Vector.toList_length, dif_pos]
  rfl

theorem ofBytes?_eq_some {n : Nat} {bytes : Bytes} {v : FixedBytes n} :
    ofBytes? n bytes = some v ↔ bytes = v.toList := by
  constructor
  · intro h
    simp only [ofBytes?] at h
    split at h
    · rw [← Option.some.inj h]
      rfl
    · cases h
  · rintro rfl
    exact ofBytes?_toList v

theorem toList_injective {n : Nat} : Function.Injective (@List.Vector.toList UInt8 n) :=
  fun _ _ h => List.Vector.eq _ _ h

end FixedBytes

def domain (label : String) : Bytes := label.toUTF8.data.toList ++ [0]

/-- Big-endian bytes of an unsigned integer of `width` bytes. -/
def bigEndian : Nat → Nat → Bytes
  | 0, _ => []
  | width + 1, value => UInt8.ofNat (value / 256 ^ width) :: bigEndian width value

def fromBigEndian (bytes : Bytes) : Nat :=
  bytes.foldl (fun total byte => total * 256 + byte.toNat) 0

@[simp] theorem bigEndian_length (width value : Nat) : (bigEndian width value).length = width := by
  induction width with
  | zero => rfl
  | succ width ih => simp only [bigEndian, List.length_cons, ih]

theorem foldl_bigEndian (width value total : Nat) :
    (bigEndian width value).foldl (fun total byte => total * 256 + byte.toNat) total =
      total * 256 ^ width + value % 256 ^ width := by
  induction width generalizing total with
  | zero => simp [bigEndian, Nat.mod_one]
  | succ width ih =>
    rw [bigEndian, List.foldl_cons, ih]
    have hdigit : (UInt8.ofNat (value / 256 ^ width)).toNat = value / 256 ^ width % 256 := by
      simp
    have hsplit : value % 256 ^ (width + 1) =
        256 ^ width * (value / 256 ^ width % 256) + value % 256 ^ width := by
      rw [pow_succ, Nat.mod_mul]
      ring
    rw [hdigit, hsplit, pow_succ]
    ring

theorem fromBigEndian_bigEndian {width value : Nat} (h : value < 256 ^ width) :
    fromBigEndian (bigEndian width value) = value := by
  rw [fromBigEndian, foldl_bigEndian, Nat.mod_eq_of_lt h]
  simp

theorem bigEndian_injective {width a b : Nat} (ha : a < 256 ^ width) (hb : b < 256 ^ width)
    (h : bigEndian width a = bigEndian width b) : a = b := by
  rw [← fromBigEndian_bigEndian ha, ← fromBigEndian_bigEndian hb, h]

end LicoArc
