import Mathlib

/-!
# Fixed-width bytes, big-endian integers and hexadecimal text

Byte strings are lists of `UInt8`, so that an encoding is taken apart by `List.append_inj`.  An array of exactly
`n` bytes is a list carrying its length.
-/

/-- An array of exactly `n` bytes. -/
def Bytes (n : Nat) : Type := { bytes : List UInt8 // bytes.length = n }

namespace Bytes

instance (n : Nat) : DecidableEq (Bytes n) := inferInstanceAs (DecidableEq { bytes : List UInt8 // bytes.length = n })

/-- The all-zero array, used as the absent identity. -/
def zero (n : Nat) : Bytes n := ⟨List.replicate n 0, List.length_replicate⟩

instance (n : Nat) : Inhabited (Bytes n) := ⟨zero n⟩

/-- The array whose first byte is `byte`, followed by zeros. -/
def ofByte (n : Nat) (byte : UInt8) : Bytes (n + 1) := ⟨byte :: List.replicate n 0, by simp⟩

/-- A big-endian natural number, truncated to the width. -/
def ofNat (n : Nat) (value : Nat) : Bytes n :=
  ⟨(List.range n).map fun index => UInt8.ofNat (value / 256 ^ (n - 1 - index)), by simp⟩

@[simp] theorem length_val {n : Nat} (bytes : Bytes n) : bytes.val.length = n := bytes.property

@[ext] theorem ext {n : Nat} {left right : Bytes n} (h : left.val = right.val) : left = right := Subtype.ext h

/-- Two arrays of one width in front of the same position are told apart by the concatenation. -/
theorem append_inj {n : Nat} {left right : Bytes n} {leftRest rightRest : List UInt8}
    (h : left.val ++ leftRest = right.val ++ rightRest) : left = right ∧ leftRest = rightRest := by
  have hsplit := List.append_inj h (by simp)
  exact ⟨Bytes.ext hsplit.1, hsplit.2⟩

end Bytes

/-! ### Big-endian integers -/

/-- The `width` low bytes of a natural number, most significant byte first. -/
def bigEndian : Nat → Nat → List UInt8
  | 0, _ => []
  | width + 1, value => bigEndian width (value / 256) ++ [UInt8.ofNat value]

@[simp] theorem bigEndian_length (width value : Nat) : (bigEndian width value).length = width := by
  induction width generalizing value with
  | zero => rfl
  | succ width ih => simp [bigEndian, ih]

theorem bigEndian_injective {width left right : Nat} (hleft : left < 256 ^ width) (hright : right < 256 ^ width)
    (h : bigEndian width left = bigEndian width right) : left = right := by
  induction width generalizing left right with
  | zero => omega
  | succ width ih =>
      rw [Nat.pow_succ] at hleft hright
      have hsplit := List.append_inj h (by simp)
      have hhigh : left / 256 = right / 256 :=
        ih (Nat.div_lt_of_lt_mul (by omega)) (Nat.div_lt_of_lt_mul (by omega)) hsplit.1
      have hlow : left % 256 = right % 256 := by
        have hbyte := congrArg UInt8.toNat (List.singleton_inj.mp hsplit.2)
        simpa using hbyte
      omega

/-- Fixed-width integers in front of the same position are told apart by the concatenation. -/
theorem bigEndian_append_inj {width left right : Nat} {leftRest rightRest : List UInt8}
    (hleft : left < 256 ^ width) (hright : right < 256 ^ width)
    (h : bigEndian width left ++ leftRest = bigEndian width right ++ rightRest) :
    left = right ∧ leftRest = rightRest := by
  have hsplit := List.append_inj h (by simp)
  exact ⟨bigEndian_injective hleft hright hsplit.1, hsplit.2⟩

/-- The natural number that a byte string denotes, most significant byte first. -/
def bigEndianValue (bytes : List UInt8) : Nat := bytes.foldl (fun value byte => value * 256 + byte.toNat) 0

theorem bigEndianValue_append_singleton (bytes : List UInt8) (byte : UInt8) :
    bigEndianValue (bytes ++ [byte]) = bigEndianValue bytes * 256 + byte.toNat := by
  simp [bigEndianValue]

theorem bigEndianValue_lt (bytes : List UInt8) : bigEndianValue bytes < 256 ^ bytes.length := by
  induction bytes using List.reverseRecOn with
  | nil => simp [bigEndianValue]
  | append_singleton bytes byte ih =>
      have hbyte := byte.toNat_lt
      rw [bigEndianValue_append_singleton, List.length_append, List.length_singleton, Nat.pow_succ]
      omega

/-- Reading back what was written. -/
theorem bigEndianValue_bigEndian {width value : Nat} (h : value < 256 ^ width) :
    bigEndianValue (bigEndian width value) = value := by
  induction width generalizing value with
  | zero =>
      simp only [bigEndian, bigEndianValue, List.foldl_nil]
      omega
  | succ width ih =>
      rw [Nat.pow_succ] at h
      rw [bigEndian, bigEndianValue_append_singleton, ih (Nat.div_lt_of_lt_mul (by omega))]
      simp
      omega

/-- Writing back what was read. -/
theorem bigEndian_bigEndianValue (bytes : List UInt8) : bigEndian bytes.length (bigEndianValue bytes) = bytes := by
  induction bytes using List.reverseRecOn with
  | nil => rfl
  | append_singleton bytes byte ih =>
      have hbyte := byte.toNat_lt
      have hhigh : (bigEndianValue bytes * 256 + byte.toNat) / 256 = bigEndianValue bytes := by omega
      have hlow : UInt8.ofNat (bigEndianValue bytes * 256 + byte.toNat) = byte := by
        apply UInt8.toNat_inj.mp
        simp
      rw [bigEndianValue_append_singleton, List.length_append, List.length_singleton, bigEndian, hhigh, ih, hlow]

/-! ### Lowercase hexadecimal text -/

/-- ASCII character of one hexadecimal digit. -/
def hexDigit (digit : Nat) : UInt8 := UInt8.ofNat (if digit < 10 then 48 + digit else 87 + digit)

/-- Value of one lowercase hexadecimal character. -/
def hexValue (character : UInt8) : Option Nat :=
  if 48 ≤ character.toNat ∧ character.toNat ≤ 57 then some (character.toNat - 48)
  else if 97 ≤ character.toNat ∧ character.toNat ≤ 102 then some (character.toNat - 87)
  else none

/-- Lowercase hexadecimal text of a byte string, two characters a byte. -/
def hexEncode : List UInt8 → List UInt8
  | [] => []
  | byte :: rest => hexDigit (byte.toNat / 16) :: hexDigit (byte.toNat % 16) :: hexEncode rest

/-- Byte string of a lowercase hexadecimal text of even length. -/
def hexDecode : List UInt8 → Option (List UInt8)
  | [] => some []
  | [_] => none
  | high :: low :: rest => do
      let highValue ← hexValue high
      let lowValue ← hexValue low
      let bytes ← hexDecode rest
      some (UInt8.ofNat (16 * highValue + lowValue) :: bytes)

private theorem hexValue_hexDigit {digit : Nat} (h : digit < 16) : hexValue (hexDigit digit) = some digit := by
  unfold hexDigit hexValue
  by_cases hsmall : digit < 10
  · rw [if_pos hsmall, UInt8.toNat_ofNat_of_lt' (by simp only [UInt8.size]; omega), if_pos (by omega)]
    simp
  · rw [if_neg hsmall, UInt8.toNat_ofNat_of_lt' (by simp only [UInt8.size]; omega), if_neg (by omega),
      if_pos (by omega)]
    simp

private theorem hexDigit_of_hexValue {character : UInt8} {digit : Nat} (h : hexValue character = some digit) :
    digit < 16 ∧ hexDigit digit = character := by
  unfold hexValue at h
  split_ifs at h with hdecimal hletter
  · cases h
    refine ⟨by omega, ?_⟩
    rw [hexDigit, if_pos (by omega), Nat.add_sub_cancel' hdecimal.1, UInt8.ofNat_toNat]
  · cases h
    refine ⟨by omega, ?_⟩
    rw [hexDigit, if_neg (by omega), Nat.add_sub_cancel' (by omega), UInt8.ofNat_toNat]

theorem hexDecode_hexEncode (bytes : List UInt8) : hexDecode (hexEncode bytes) = some bytes := by
  induction bytes with
  | nil => rfl
  | cons byte rest ih =>
      have hbound := byte.toNat_lt
      have hbyte : 16 * (byte.toNat / 16) + byte.toNat % 16 = byte.toNat := by omega
      simp only [hexEncode, hexDecode, hexValue_hexDigit (show byte.toNat / 16 < 16 by omega),
        hexValue_hexDigit (show byte.toNat % 16 < 16 by omega), ih, Option.bind_eq_bind, Option.bind_some, hbyte,
        UInt8.ofNat_toNat]

/-- Decoded text is the encoding of its bytes, so each byte string has exactly one spelling. -/
theorem hexEncode_of_hexDecode {text bytes : List UInt8} (h : hexDecode text = some bytes) :
    hexEncode bytes = text := by
  fun_induction hexDecode text generalizing bytes with
  | case1 =>
      cases h
      rfl
  | case2 => cases h
  | case3 high low rest ih =>
      simp only [Option.bind_eq_bind, Option.bind_eq_some_iff, Option.some.injEq] at h
      obtain ⟨highValue, hhigh, lowValue, hlow, tail, htail, hbytes⟩ := h
      obtain ⟨hhighBound, hhighDigit⟩ := hexDigit_of_hexValue hhigh
      obtain ⟨hlowBound, hlowDigit⟩ := hexDigit_of_hexValue hlow
      subst hbytes
      have hvalue : (UInt8.ofNat (16 * highValue + lowValue)).toNat = 16 * highValue + lowValue :=
        UInt8.toNat_ofNat_of_lt' (by simp only [UInt8.size]; omega)
      rw [hexEncode, hvalue, ih htail, show (16 * highValue + lowValue) / 16 = highValue by omega,
        show (16 * highValue + lowValue) % 16 = lowValue by omega, hhighDigit, hlowDigit]

theorem hexEncode_injective {left right : List UInt8} (h : hexEncode left = hexEncode right) : left = right := by
  have hleft := hexDecode_hexEncode left
  rw [h, hexDecode_hexEncode] at hleft
  exact (Option.some.inj hleft).symm

theorem hexDigit_ascii {digit : Nat} (h : digit < 16) : hexDigit digit < 0x80 := by
  interval_cases digit <;> decide

theorem hexEncode_ascii (bytes : List UInt8) : ∀ character ∈ hexEncode bytes, character < 0x80 := by
  induction bytes with
  | nil => simp [hexEncode]
  | cons byte rest ih =>
      have hbound := byte.toNat_lt
      intro character hcharacter
      rw [hexEncode, List.mem_cons, List.mem_cons] at hcharacter
      rcases hcharacter with rfl | rfl | hcharacter
      · exact hexDigit_ascii (by omega)
      · exact hexDigit_ascii (by omega)
      · exact ih character hcharacter

@[simp] theorem hexEncode_length (bytes : List UInt8) : (hexEncode bytes).length = 2 * bytes.length := by
  induction bytes with
  | nil => rfl
  | cons byte rest ih =>
      simp only [hexEncode, List.length_cons, ih]
      omega
