import Mathlib

/-!
# URL-safe base64 without padding

Three bytes are four characters of six bits each; one or two bytes at the end are two or three characters, whose unused
bits are zero.  A text with other bits there, with padding, or with one character left over is not the text of any bytes.
-/

namespace Base64Url

/-- The character of a value below 64. -/
def character (value : Nat) : UInt8 :=
  if value < 26 then UInt8.ofNat (0x41 + value)
  else if value < 52 then UInt8.ofNat (0x61 + (value - 26))
  else if value < 62 then UInt8.ofNat (0x30 + (value - 52))
  else if value = 62 then 0x2D
  else 0x5F

/-- The value of a character. -/
def sextet (byte : UInt8) : Option Nat :=
  if 0x41 ≤ byte ∧ byte ≤ 0x5A then some (byte.toNat - 0x41)
  else if 0x61 ≤ byte ∧ byte ≤ 0x7A then some (byte.toNat - 0x61 + 26)
  else if 0x30 ≤ byte ∧ byte ≤ 0x39 then some (byte.toNat - 0x30 + 52)
  else if byte = 0x2D then some 62
  else if byte = 0x5F then some 63
  else none

def encode : List UInt8 → List UInt8
  | [] => []
  | [first] => [character (first.toNat / 4), character (first.toNat % 4 * 16)]
  | [first, second] =>
      [character (first.toNat / 4), character (first.toNat % 4 * 16 + second.toNat / 16),
        character (second.toNat % 16 * 4)]
  | first :: second :: third :: rest =>
      character (first.toNat / 4) :: character (first.toNat % 4 * 16 + second.toNat / 16) ::
        character (second.toNat % 16 * 4 + third.toNat / 64) :: character (third.toNat % 64) :: encode rest

def decode : List UInt8 → Option (List UInt8)
  | [] => some []
  | [_] => none
  | [one, two] => do
      let a ← sextet one
      let b ← sextet two
      if b % 16 = 0 then some [UInt8.ofNat (a * 4 + b / 16)] else none
  | [one, two, three] => do
      let a ← sextet one
      let b ← sextet two
      let c ← sextet three
      if c % 4 = 0 then some [UInt8.ofNat (a * 4 + b / 16), UInt8.ofNat (b % 16 * 16 + c / 4)] else none
  | one :: two :: three :: four :: rest => do
      let a ← sextet one
      let b ← sextet two
      let c ← sextet three
      let d ← sextet four
      let bytes ← decode rest
      some (UInt8.ofNat (a * 4 + b / 16) :: UInt8.ofNat (b % 16 * 16 + c / 4) :: UInt8.ofNat (c % 4 * 64 + d) :: bytes)

@[simp] theorem sextet_character {value : Nat} (h : value < 64) : sextet (character value) = some value := by
  interval_cases value <;> rfl

/-- The number of characters is four thirds of the number of bytes, rounded up. -/
theorem length_encode (bytes : List UInt8) : (encode bytes).length = (4 * bytes.length + 2) / 3 := by
  fun_induction encode bytes with
  | case1 => rfl
  | case2 first => simp
  | case3 first second => simp
  | case4 first second third rest ih =>
      simp only [List.length_cons, ih]
      omega

/-- A byte put together from its high and low bits. -/
theorem ofNat_eq (byte : UInt8) {value : Nat} (h : value = byte.toNat) : UInt8.ofNat value = byte := by
  rw [h, UInt8.ofNat_toNat]

theorem decode_encode (bytes : List UInt8) : decode (encode bytes) = some bytes := by
  fun_induction encode bytes with
  | case1 => rfl
  | case2 first =>
      have hfirst := first.toNat_lt
      rw [decode, sextet_character (by omega), sextet_character (by omega)]
      simp only [Option.bind_eq_bind, Option.bind_some]
      rw [if_pos (by omega), ofNat_eq first (by omega)]
  | case3 first second =>
      have hfirst := first.toNat_lt
      have hsecond := second.toNat_lt
      rw [decode, sextet_character (by omega), sextet_character (by omega), sextet_character (by omega)]
      simp only [Option.bind_eq_bind, Option.bind_some]
      rw [if_pos (by omega), ofNat_eq first (by omega), ofNat_eq second (by omega)]
  | case4 first second third rest ih =>
      have hfirst := first.toNat_lt
      have hsecond := second.toNat_lt
      have hthird := third.toNat_lt
      rw [decode, sextet_character (by omega), sextet_character (by omega), sextet_character (by omega),
        sextet_character (by omega), ih]
      simp only [Option.bind_eq_bind, Option.bind_some]
      rw [ofNat_eq first (by omega), ofNat_eq second (by omega),
        ofNat_eq third (by omega)]

end Base64Url
