import Mathlib

/-!
# Percent-encoding

An encoder keeps some bytes and writes the others as a percent sign with two uppercase hexadecimal digits.  A decoder
reads digits of either case, and passes a percent sign without two digits behind it through.  As long as the percent
sign itself is not kept, decoding undoes encoding, and an encoded text has no other bytes than the kept ones, digits and
percent signs, so that it can be joined with separators and split again.
-/

namespace Percent

/-! ### Bytes -/

/-- The uppercase hexadecimal digit of a value below sixteen. -/
def upperDigit (digit : Nat) : UInt8 := UInt8.ofNat (if digit < 10 then 48 + digit else 55 + digit)

/-- The value of a hexadecimal digit of either case. -/
def digitValue (character : UInt8) : Option Nat :=
  if 0x30 ≤ character ∧ character ≤ 0x39 then some (character.toNat - 0x30)
  else if 0x41 ≤ character ∧ character ≤ 0x46 then some (character.toNat - 0x37)
  else if 0x61 ≤ character ∧ character ≤ 0x66 then some (character.toNat - 0x57)
  else none

def isUpperDigit (character : UInt8) : Bool :=
  (decide (0x30 ≤ character) && decide (character ≤ 0x39)) || (decide (0x41 ≤ character) && decide (character ≤ 0x46))

theorem digitValue_upperDigit {digit : Nat} (h : digit < 16) : digitValue (upperDigit digit) = some digit := by
  interval_cases digit <;> rfl

theorem isUpperDigit_upperDigit {digit : Nat} (h : digit < 16) : isUpperDigit (upperDigit digit) = true := by
  interval_cases digit <;> rfl

def decode : List UInt8 → List UInt8
  | [] => []
  | byte :: rest =>
      match rest with
      | high :: low :: behind =>
          if byte = 0x25 then
            match digitValue high, digitValue low with
            | some first, some second => UInt8.ofNat (16 * first + second) :: decode behind
            | _, _ => byte :: decode (high :: low :: behind)
          else byte :: decode (high :: low :: behind)
      | [last] => [byte, last]
      | [] => [byte]

theorem decode_cons_of_ne {byte : UInt8} (h : byte ≠ 0x25) (rest : List UInt8) :
    decode (byte :: rest) = byte :: decode rest := by
  cases rest with
  | nil => rfl
  | cons high rest =>
      cases rest with
      | nil => rfl
      | cons low behind => rw [decode, if_neg h]

theorem decode_of_not_mem {text : List UInt8} (h : 0x25 ∉ text) : decode text = text := by
  induction text with
  | nil => rfl
  | cons byte rest ih =>
      rw [List.mem_cons, not_or] at h
      rw [decode_cons_of_ne (Ne.symm h.1), ih h.2]

section Encode

variable (keep : UInt8 → Bool)

def encodeByte (byte : UInt8) : List UInt8 :=
  if keep byte then [byte] else [0x25, upperDigit (byte.toNat / 16), upperDigit (byte.toNat % 16)]

def encode (bytes : List UInt8) : List UInt8 := bytes.flatMap (encodeByte keep)

variable {keep}

@[simp] theorem encode_nil : encode keep [] = [] := rfl

@[simp] theorem encode_cons (byte : UInt8) (bytes : List UInt8) :
    encode keep (byte :: bytes) = encodeByte keep byte ++ encode keep bytes := rfl

@[simp] theorem encode_append (front back : List UInt8) :
    encode keep (front ++ back) = encode keep front ++ encode keep back := List.flatMap_append

theorem encodeByte_of_keep {byte : UInt8} (h : keep byte = true) : encodeByte keep byte = [byte] := if_pos h

theorem encode_of_keep {bytes : List UInt8} (h : ∀ byte ∈ bytes, keep byte = true) : encode keep bytes = bytes := by
  induction bytes with
  | nil => rfl
  | cons byte rest ih =>
      rw [List.forall_mem_cons] at h
      rw [encode_cons, encodeByte_of_keep h.1, ih h.2, List.singleton_append]

/-- An encoded text has kept bytes, percent signs and digits only. -/
theorem mem_encode {bytes : List UInt8} {character : UInt8} (h : character ∈ encode keep bytes) :
    keep character = true ∨ character = 0x25 ∨ isUpperDigit character = true := by
  obtain ⟨byte, _, hmem⟩ := List.mem_flatMap.mp h
  have hbyte := byte.toNat_lt
  rw [encodeByte] at hmem
  split_ifs at hmem with hkeep
  · rw [List.mem_singleton] at hmem
    exact .inl (hmem ▸ hkeep)
  · simp only [List.mem_cons, List.not_mem_nil, or_false] at hmem
    rcases hmem with rfl | rfl | rfl
    · exact .inr (.inl rfl)
    · exact .inr (.inr (isUpperDigit_upperDigit (by omega)))
    · exact .inr (.inr (isUpperDigit_upperDigit (by omega)))

/-- A separator that is neither kept nor a digit does not occur in an encoded text. -/
theorem not_mem_encode {separator : UInt8} (hkeep : keep separator = false) (hpercent : separator ≠ 0x25)
    (hdigit : isUpperDigit separator = false) (bytes : List UInt8) : separator ∉ encode keep bytes := by
  intro hmem
  rcases mem_encode hmem with h | h | h
  · rw [hkeep] at h
    cases h
  · exact hpercent h
  · rw [hdigit] at h
    cases h

theorem decode_encodeByte (hkeep : keep 0x25 = false) (byte : UInt8) (rest : List UInt8) :
    decode (encodeByte keep byte ++ rest) = byte :: decode rest := by
  have hbyte := byte.toNat_lt
  rw [encodeByte]
  split_ifs with h
  · apply decode_cons_of_ne
    intro heq
    rw [heq, hkeep] at h
    cases h
  · rw [List.cons_append, List.cons_append, List.singleton_append, decode, if_pos rfl,
      digitValue_upperDigit (by omega), digitValue_upperDigit (by omega)]
    dsimp only
    have hvalue : 16 * (byte.toNat / 16) + byte.toNat % 16 = byte.toNat := by omega
    rw [hvalue, UInt8.ofNat_toNat]

theorem decode_encode_append (hkeep : keep 0x25 = false) (bytes rest : List UInt8) :
    decode (encode keep bytes ++ rest) = bytes ++ decode rest := by
  induction bytes with
  | nil => rfl
  | cons byte bytes ih => rw [encode_cons, List.append_assoc, decode_encodeByte hkeep, ih, List.cons_append]

theorem decode_encode (hkeep : keep 0x25 = false) (bytes : List UInt8) : decode (encode keep bytes) = bytes := by
  have happend := decode_encode_append hkeep bytes []
  rwa [List.append_nil, decode, List.append_nil] at happend

theorem splitOn_append_of_not_mem {separator : UInt8} {front : List UInt8} (h : separator ∉ front) (back : List UInt8) :
    (front ++ back).splitOn separator = (back.splitOn separator).modifyHead (front ++ ·) := by
  induction front with
  | nil =>
      change back.splitOn separator = (back.splitOn separator).modifyHead fun text => text
      cases back.splitOn separator with
      | nil => rfl
      | cons first rest => rfl
  | cons byte front ih =>
      rw [List.mem_cons, not_or] at h
      rw [List.cons_append, List.splitOn_cons_eq_if_modifyHead, if_neg (by simpa using Ne.symm h.1), ih h.2,
        List.modifyHead_modifyHead]
      rfl

/-- Encoding keeps the pieces between separators that it keeps. -/
theorem splitOn_encode {separator : UInt8} (hkeep : keep separator = true) (hpercent : separator ≠ 0x25)
    (hdigit : isUpperDigit separator = false) (bytes : List UInt8) :
    (encode keep bytes).splitOn separator = (bytes.splitOn separator).map (encode keep) := by
  induction bytes with
  | nil => rfl
  | cons byte bytes ih =>
      rw [encode_cons, List.splitOn_cons_eq_if_modifyHead]
      by_cases hbyte : byte = separator
      · subst hbyte
        rw [encodeByte_of_keep hkeep, List.singleton_append, List.splitOn_cons_eq_if_modifyHead, if_pos (beq_self_eq_true _),
          if_pos (beq_self_eq_true _), ih]
        rfl
      · have hplain : separator ∉ encodeByte keep byte := by
          rw [encodeByte]
          have hbound := byte.toNat_lt
          have hdigits : ∀ digit < 16, separator ≠ upperDigit digit := by
            intro digit hlt heq
            rw [heq, isUpperDigit_upperDigit hlt] at hdigit
            cases hdigit
          split_ifs with hkept
          · rw [List.mem_singleton]
            exact Ne.symm hbyte
          · simp only [List.mem_cons, List.not_mem_nil, or_false, not_or]
            exact ⟨hpercent, hdigits _ (by omega), hdigits _ (by omega)⟩
        rw [splitOn_append_of_not_mem hplain, if_neg (by simpa using hbyte), ih]
        cases bytes.splitOn separator with
        | nil => rfl
        | cons first rest => rfl

theorem encode_injective (hkeep : keep 0x25 = false) : Function.Injective (encode keep) :=
  Function.LeftInverse.injective (decode_encode hkeep)

end Encode

/-! ### Lists of pairs -/

abbrev Pair := List UInt8 × List UInt8

/-- `name=value` -/
def joinPair (pair : Pair) : List UInt8 := pair.1 ++ 0x3D :: pair.2

/-- `name=value&name=value` -/
def joinPairs (pairs : List Pair) : List UInt8 := [0x26].intercalate (pairs.map joinPair)

/-- What is in front of the first equals sign and what is behind it. -/
def splitPair (text : List UInt8) : Pair :=
  (text.takeWhile fun byte => byte != 0x3D, (text.dropWhile fun byte => byte != 0x3D).tail)

def splitPairs (text : List UInt8) : List Pair := (text.splitOn 0x26).map splitPair

theorem takeWhile_append_stop {separator : UInt8} {front : List UInt8} (h : separator ∉ front) (back : List UInt8) :
    (front ++ separator :: back).takeWhile (fun byte => byte != separator) = front := by
  rw [List.takeWhile_append_of_pos, List.takeWhile_cons_of_neg, List.append_nil]
  · simp
  · intro byte hmem
    rw [bne_iff_ne]
    exact fun heq => h (heq ▸ hmem)

theorem dropWhile_append_stop {separator : UInt8} {front : List UInt8} (h : separator ∉ front) (back : List UInt8) :
    (front ++ separator :: back).dropWhile (fun byte => byte != separator) = separator :: back := by
  rw [List.dropWhile_append_of_pos, List.dropWhile_cons_of_neg]
  · simp
  · intro byte hmem
    rw [bne_iff_ne]
    exact fun heq => h (heq ▸ hmem)

/-- A text is determined up to the first separator and behind it. -/
theorem append_stop_inj {separator : UInt8} {front front' back back' : List UInt8} (h : separator ∉ front)
    (h' : separator ∉ front') (heq : front ++ separator :: back = front' ++ separator :: back') :
    front = front' ∧ back = back' := by
  have hfront := congrArg (List.takeWhile fun byte => byte != separator) heq
  rw [takeWhile_append_stop h, takeWhile_append_stop h'] at hfront
  subst hfront
  have hback := List.append_cancel_left heq
  exact ⟨rfl, (List.cons.inj hback).2⟩

/-- A text is determined up to the last separator and behind it. -/
theorem append_last_stop_inj {separator : UInt8} {front front' back back' : List UInt8} (h : separator ∉ back)
    (h' : separator ∉ back') (heq : front ++ separator :: back = front' ++ separator :: back') :
    front = front' ∧ back = back' := by
  have hreverse := congrArg List.reverse heq
  simp only [List.reverse_append, List.reverse_cons, List.append_assoc, List.singleton_append] at hreverse
  obtain ⟨hback, hfront⟩ := append_stop_inj (by simpa using h) (by simpa using h') hreverse
  exact ⟨List.reverse_injective hfront, List.reverse_injective hback⟩

theorem splitPair_joinPair {pair : Pair} (h : 0x3D ∉ pair.1) : splitPair (joinPair pair) = pair := by
  rw [splitPair, joinPair, takeWhile_append_stop h, dropWhile_append_stop h]
  rfl

theorem splitPairs_joinPairs {pairs : List Pair} (hpairs : pairs ≠ [])
    (hnames : ∀ pair ∈ pairs, 0x3D ∉ pair.1) (hseparate : ∀ pair ∈ pairs, 0x26 ∉ joinPair pair) :
    splitPairs (joinPairs pairs) = pairs := by
  rw [splitPairs, joinPairs, List.splitOn_intercalate]
  · rw [List.map_map]
    conv_rhs => rw [← List.map_id pairs]
    apply List.map_congr_left
    intro pair hmem
    exact splitPair_joinPair (hnames pair hmem)
  · intro text hmem
    obtain ⟨pair, hpair, rfl⟩ := List.mem_map.mp hmem
    exact hseparate pair hpair
  · exact fun hnil => hpairs (List.map_eq_nil_iff.mp hnil)

theorem joinPairs_concat {pairs : List Pair} (hpairs : pairs ≠ []) (last : Pair) :
    joinPairs (pairs ++ [last]) = joinPairs pairs ++ 0x26 :: joinPair last := by
  induction pairs with
  | nil => exact absurd rfl hpairs
  | cons first rest ih =>
      cases rest with
      | nil => simp [joinPairs, List.intercalate]
      | cons second rest =>
          have hrest := ih (List.cons_ne_nil _ _)
          simp only [joinPairs, List.map_append, List.map_cons, List.map_nil, List.cons_append] at hrest ⊢
          rw [List.intercalate_cons_cons, List.intercalate_cons_cons, hrest, List.append_assoc (joinPair first ++ [0x26])]

theorem mem_intercalate {separator byte : UInt8} {parts : List (List UInt8)} (h : byte ∈ [separator].intercalate parts) :
    byte = separator ∨ ∃ part ∈ parts, byte ∈ part := by
  induction parts with
  | nil => cases h
  | cons first rest ih =>
      cases rest with
      | nil =>
          rw [List.intercalate_singleton] at h
          exact .inr ⟨first, List.mem_cons_self, h⟩
      | cons second rest =>
          rw [List.intercalate_cons_cons, List.append_assoc, List.mem_append, List.singleton_append, List.mem_cons] at h
          rcases h with hfirst | hseparator | hrest
          · exact .inr ⟨first, List.mem_cons_self, hfirst⟩
          · exact .inl hseparator
          · rcases ih hrest with hseparator | ⟨part, hpart, hmem⟩
            · exact .inl hseparator
            · exact .inr ⟨part, List.mem_cons_of_mem _ hpart, hmem⟩

/-- A piece between separators is a part of the whole. -/
theorem isInfix_of_mem_splitOn {separator : UInt8} {text part : List UInt8} (h : part ∈ text.splitOn separator) :
    part <:+: text := by
  have hjoin : ∀ parts : List (List UInt8), part ∈ parts → part <:+: [separator].intercalate parts := by
    intro parts hmem
    induction parts with
    | nil => cases hmem
    | cons first rest ih =>
        cases rest with
        | nil =>
            rw [List.mem_singleton] at hmem
            rw [hmem, List.intercalate_singleton]
        | cons second rest =>
            rw [List.intercalate_cons_cons, List.append_assoc]
            rcases List.mem_cons.mp hmem with rfl | hmem
            · exact (List.prefix_append _ _).isInfix
            · exact (ih hmem).trans ((List.suffix_append _ _).trans (List.suffix_append _ _)).isInfix
  have hwhole := hjoin _ h
  rwa [List.intercalate_splitOn] at hwhole

theorem mem_joinPairs {pairs : List Pair} {byte : UInt8} (h : byte ∈ joinPairs pairs) :
    byte = 0x26 ∨ ∃ pair ∈ pairs, byte ∈ joinPair pair := by
  rcases mem_intercalate h with hseparator | ⟨part, hpart, hmem⟩
  · exact .inl hseparator
  · obtain ⟨pair, hpair, rfl⟩ := List.mem_map.mp hpart
    exact .inr ⟨pair, hpair, hmem⟩

/-- Encode names and values. -/
def encodePairs (keep : UInt8 → Bool) (pairs : List Pair) : List Pair :=
  pairs.map fun pair => (encode keep pair.1, encode keep pair.2)

/-- Split a query and decode its names and values. -/
def decodeQuery (query : List UInt8) : List Pair :=
  (splitPairs query).map fun pair => (decode pair.1, decode pair.2)

theorem decodeQuery_encoded {keep : UInt8 → Bool} (hpercent : keep 0x25 = false) (hampersand : keep 0x26 = false)
    (hequals : keep 0x3D = false) {pairs : List Pair} (hpairs : pairs ≠ []) :
    decodeQuery (joinPairs (encodePairs keep pairs)) = pairs := by
  rw [decodeQuery, splitPairs_joinPairs]
  · rw [encodePairs, List.map_map]
    conv_rhs => rw [← List.map_id pairs]
    apply List.map_congr_left
    intro pair _
    simp [decode_encode hpercent]
  · exact fun hnil => hpairs (List.map_eq_nil_iff.mp hnil)
  · intro pair hmem
    obtain ⟨plain, _, rfl⟩ := List.mem_map.mp hmem
    exact not_mem_encode hequals (by decide) (by decide) _
  · intro pair hmem
    obtain ⟨plain, _, rfl⟩ := List.mem_map.mp hmem
    rw [joinPair, List.mem_append, List.mem_cons]
    rintro (hname | heq | hvalue)
    · exact not_mem_encode hampersand (by decide) (by decide) _ hname
    · cases heq
    · exact not_mem_encode hampersand (by decide) (by decide) _ hvalue

end Percent
