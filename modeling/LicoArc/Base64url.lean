import Mathlib.Data.List.Basic
import Mathlib.Tactic.IntervalCases

/-!
# Unpadded base64url

Three bytes are four digits of six bits. A tail of one or two bytes ends in a
digit with four or two zero bits; canonical text has no other bit there.
-/

namespace LicoArc

namespace Base64url

def alphabet : List Char :=
  "ABCDEFGHIJKLMNOPQRSTUVWXYZabcdefghijklmnopqrstuvwxyz0123456789-_".toList

def digitChar (digit : Nat) : Char := alphabet.getD digit 'A'

def digits : List UInt8 → List Nat
  | [] => []
  | [a] => [a.toNat / 4, a.toNat % 4 * 16]
  | [a, b] => [a.toNat / 4, a.toNat % 4 * 16 + b.toNat / 16, b.toNat % 16 * 4]
  | a :: b :: c :: rest =>
    a.toNat / 4 :: (a.toNat % 4 * 16 + b.toNat / 16) :: (b.toNat % 16 * 4 + c.toNat / 64) ::
      c.toNat % 64 :: digits rest

def encode (bytes : List UInt8) : String := String.ofList ((digits bytes).map digitChar)

/-- Digits whose tail carries no other bits than those of its bytes. -/
def Canonical : List Nat → Prop
  | [] => True
  | [_] => False
  | [a, b] => a < 64 ∧ b < 64 ∧ b % 16 = 0
  | [a, b, c] => a < 64 ∧ b < 64 ∧ c < 64 ∧ c % 4 = 0
  | a :: b :: c :: d :: rest => a < 64 ∧ b < 64 ∧ c < 64 ∧ d < 64 ∧ Canonical rest

theorem digits_canonical (bytes : List UInt8) : Canonical (digits bytes) := by
  induction bytes using digits.induct with
  | case1 => trivial
  | case2 a =>
    have := a.toNat_lt
    refine ⟨?_, ?_, ?_⟩ <;> omega
  | case3 a b =>
    have := a.toNat_lt
    have := b.toNat_lt
    refine ⟨?_, ?_, ?_, ?_⟩ <;> omega
  | case4 a b c rest ih =>
    have := a.toNat_lt
    have := b.toNat_lt
    have := c.toNat_lt
    refine ⟨?_, ?_, ?_, ?_, ih⟩ <;> omega

theorem Canonical.lt {ds : List Nat} (h : Canonical ds) : ∀ d ∈ ds, d < 64 := by
  induction ds using Canonical.induct with
  | case1 => exact nofun
  | case2 => exact h.elim
  | case3 a b => simpa using ⟨h.1, h.2.1⟩
  | case4 a b c => simpa using ⟨h.1, h.2.1, h.2.2.1⟩
  | case5 a b c d rest ih => simpa using ⟨h.1, h.2.1, h.2.2.1, h.2.2.2.1, ih h.2.2.2.2⟩

theorem digits_length (bytes : List UInt8) :
    (digits bytes).length = (bytes.length * 4 + 2) / 3 := by
  induction bytes using digits.induct with
  | case1 => rfl
  | case2 | case3 => simp [digits]
  | case4 a b c rest ih =>
    simp only [digits, List.length_cons, ih]
    omega

theorem digits_injective : Function.Injective digits := by
  intro first
  induction first using digits.induct with
  | case1 =>
    intro second h
    match second with
    | [] => rfl
    | [_] | [_, _] | _ :: _ :: _ :: _ => cases h
  | case2 a =>
    intro second h
    match second with
    | [] | [_, _] | _ :: _ :: _ :: _ => simp [digits] at h
    | [a'] =>
      simp only [digits, List.cons.injEq, and_true] at h
      rw [UInt8.toNat_inj.mp (show a.toNat = a'.toNat by omega)]
  | case3 a b =>
    intro second h
    match second with
    | [] | [_] | _ :: _ :: _ :: _ => simp [digits] at h
    | [a', b'] =>
      have := b.toNat_lt
      have := b'.toNat_lt
      simp only [digits, List.cons.injEq, and_true] at h
      rw [UInt8.toNat_inj.mp (show a.toNat = a'.toNat by omega),
        UInt8.toNat_inj.mp (show b.toNat = b'.toNat by omega)]
  | case4 a b c rest ih =>
    intro second h
    match second with
    | [] | [_] | [_, _] => simp [digits] at h
    | a' :: b' :: c' :: rest' =>
      have := b.toNat_lt
      have := b'.toNat_lt
      have := c.toNat_lt
      have := c'.toNat_lt
      simp only [digits, List.cons.injEq] at h
      rw [UInt8.toNat_inj.mp (show a.toNat = a'.toNat by omega),
        UInt8.toNat_inj.mp (show b.toNat = b'.toNat by omega),
        UInt8.toNat_inj.mp (show c.toNat = c'.toNat by omega), ih h.2.2.2.2]

theorem Canonical.exists_bytes {ds : List Nat} (h : Canonical ds) : ∃ bytes, digits bytes = ds := by
  induction ds using Canonical.induct with
  | case1 => exact ⟨[], rfl⟩
  | case2 => exact h.elim
  | case3 a b =>
    obtain ⟨ha, hb, hzero⟩ := h
    refine ⟨[UInt8.ofNat (a * 4 + b / 16)], ?_⟩
    simp only [digits, UInt8.toNat_ofNat', List.cons.injEq, and_true]
    omega
  | case4 a b c =>
    obtain ⟨ha, hb, hc, hzero⟩ := h
    refine ⟨[UInt8.ofNat (a * 4 + b / 16), UInt8.ofNat (b % 16 * 16 + c / 4)], ?_⟩
    simp only [digits, UInt8.toNat_ofNat', List.cons.injEq, and_true]
    omega
  | case5 a b c d rest ih =>
    obtain ⟨ha, hb, hc, hd, hrest⟩ := h
    obtain ⟨bytes, hbytes⟩ := ih hrest
    refine ⟨UInt8.ofNat (a * 4 + b / 16) :: UInt8.ofNat (b % 16 * 16 + c / 4) ::
      UInt8.ofNat (c % 4 * 64 + d) :: bytes, ?_⟩
    simp only [digits, UInt8.toNat_ofNat', List.cons.injEq, hbytes, and_true]
    omega

theorem canonical_of_last {ds : List Nat} (hlength : ds.length % 4 = 3) (hlt : ∀ d ∈ ds, d < 64)
    (hlast : ∀ d ∈ ds.getLast?, d % 4 = 0) : Canonical ds := by
  induction ds using Canonical.induct with
  | case1 | case2 | case3 => simp at hlength
  | case4 a b c =>
    simp only [List.mem_cons, List.not_mem_nil, or_false, forall_eq_or_imp, forall_eq] at hlt
    exact ⟨hlt.1, hlt.2.1, hlt.2.2, hlast c rfl⟩
  | case5 a b c d rest ih =>
    simp only [List.mem_cons, forall_eq_or_imp] at hlt
    refine ⟨hlt.1, hlt.2.1, hlt.2.2.1, hlt.2.2.2.1, ih ?_ hlt.2.2.2.2 ?_⟩
    · simp only [List.length_cons] at hlength
      omega
    · intro d hd
      refine hlast d ?_
      cases rest with
      | nil => cases hd
      | cons => simpa using hd

theorem digits_getLast? {bytes : List UInt8} (h : bytes.length % 3 = 2) :
    (digits bytes).getLast? = bytes.getLast?.map fun byte => byte.toNat % 16 * 4 := by
  induction bytes using digits.induct with
  | case1 | case2 => simp at h
  | case3 a b => rfl
  | case4 a b c rest ih =>
    have hrest : rest.length % 3 = 2 := by
      simp only [List.length_cons] at h
      omega
    have ih := ih hrest
    match rest with
    | [] => simp at hrest
    | byte :: tail =>
      rw [digits]
      cases hdigits : digits (byte :: tail) with
      | nil => simp [hdigits] at ih
      | cons digit others =>
        rw [hdigits] at ih
        simpa using ih

theorem idxOf_digitChar {digit : Nat} (h : digit < 64) :
    alphabet.idxOf (digitChar digit) = digit := by
  have hall : ∀ digit : Fin 64, alphabet.idxOf (digitChar digit) = digit := by decide +kernel
  exact hall ⟨digit, h⟩

theorem encode_injective : Function.Injective encode := by
  intro first second h
  have hchars := congrArg (List.map alphabet.idxOf) (String.ofList_injective h)
  have hread : ∀ bytes, ((digits bytes).map digitChar).map alphabet.idxOf = digits bytes := by
    intro bytes
    calc ((digits bytes).map digitChar).map alphabet.idxOf
        = (digits bytes).map id := by
          rw [List.map_map]
          exact List.map_congr_left fun d hd => idxOf_digitChar ((digits_canonical bytes).lt d hd)
      _ = digits bytes := List.map_id _
  rw [hread, hread] at hchars
  exact digits_injective hchars

end Base64url

end LicoArc
