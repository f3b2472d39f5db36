import Skydriver.Lib.Bytes
import Skydriver.Lib.Utf8

/-!
# JSON texts

A value is written without blanks, and with every byte that HTML gives a meaning escaped.  A string is a byte string: what
is not UTF-8 is written as an escaped U+FFFD, so that a value reads back with each of its strings coerced.

Numbers are integers.  Reading takes blanks between the tokens and any escape, and stops behind the first value.
-/

namespace Json

inductive Value where
  | null
  | bool (value : Bool)
  | number (value : Int)
  | string (bytes : List UInt8)
  | array (elements : List Value)
  | object (members : List (List UInt8 × Value))

/-! ### Strings -/

/-- The bytes that stand for themselves between quotes. -/
def isPlain (byte : UInt8) : Bool :=
  0x20 ≤ byte && byte < 0x80 && byte != 0x22 && byte != 0x5C && byte != 0x3C && byte != 0x3E && byte != 0x26

/-- The escape of an ASCII byte that is not plain. -/
def escape (byte : UInt8) : List UInt8 :=
  if byte = 0x5C ∨ byte = 0x22 then [0x5C, byte]
  else if byte = 0x08 then [0x5C, 0x62]
  else if byte = 0x0C then [0x5C, 0x66]
  else if byte = 0x0A then [0x5C, 0x6E]
  else if byte = 0x0D then [0x5C, 0x72]
  else if byte = 0x09 then [0x5C, 0x74]
  else [0x5C, 0x75, 0x30, 0x30, hexDigit (byte.toNat / 16), hexDigit (byte.toNat % 16)]

/-- The escape of U+FFFD. -/
def replacementEscape : List UInt8 := [0x5C, 0x75, 0x66, 0x66, 0x66, 0x64]

/-- The escape of U+2028 or U+2029, whose last byte is given. -/
def separatorEscape (last : UInt8) : List UInt8 :=
  [0x5C, 0x75, 0x32, 0x30, 0x32, if last = 0xA8 then 0x38 else 0x39]

/-- The text between the quotes, past `pending` bytes of a sequence. -/
def quoteFrom : Nat → List UInt8 → List UInt8
  | _, [] => []
  | pending + 1, byte :: rest => byte :: quoteFrom pending rest
  | 0, first :: rest =>
      if isPlain first then first :: quoteFrom 0 rest
      else if first < 0x80 then escape first ++ quoteFrom 0 rest
      else
        match Utf8.following first rest with
        | none => replacementEscape ++ quoteFrom 0 rest
        | some count =>
            match rest with
            | second :: third :: tail =>
                if first = 0xE2 ∧ second = 0x80 ∧ (third = 0xA8 ∨ third = 0xA9) then
                  separatorEscape third ++ quoteFrom 0 tail
                else first :: quoteFrom count (second :: third :: tail)
            | rest => first :: quoteFrom count rest

def quote (bytes : List UInt8) : List UInt8 := 0x22 :: quoteFrom 0 bytes ++ [0x22]

/-- Value of one hexadecimal character of either case. -/
def anyHexValue (character : UInt8) : Option Nat :=
  if 65 ≤ character.toNat ∧ character.toNat ≤ 70 then some (character.toNat - 55) else hexValue character

/-- The code unit of four hexadecimal characters. -/
def codeUnit (first second third fourth : UInt8) : Option Nat := do
  let a ← anyHexValue first
  let b ← anyHexValue second
  let c ← anyHexValue third
  let d ← anyHexValue fourth
  some (((a * 16 + b) * 16 + c) * 16 + d)

/-- The UTF-8 encoding of a code point. -/
def encodeRune (rune : Nat) : List UInt8 :=
  if rune < 0x80 then [UInt8.ofNat rune]
  else if rune < 0x800 then [UInt8.ofNat (0xC0 + rune / 64), UInt8.ofNat (0x80 + rune % 64)]
  else if rune < 0x10000 then
    [UInt8.ofNat (0xE0 + rune / 4096), UInt8.ofNat (0x80 + rune / 64 % 64), UInt8.ofNat (0x80 + rune % 64)]
  else
    [UInt8.ofNat (0xF0 + rune / 262144), UInt8.ofNat (0x80 + rune / 4096 % 64), UInt8.ofNat (0x80 + rune / 64 % 64),
      UInt8.ofNat (0x80 + rune % 64)]

/-- The byte of a one-character escape. -/
def unescape (kind : UInt8) : Option UInt8 :=
  if kind = 0x22 ∨ kind = 0x5C ∨ kind = 0x2F then some kind
  else if kind = 0x62 then some 0x08
  else if kind = 0x66 then some 0x0C
  else if kind = 0x6E then some 0x0A
  else if kind = 0x72 then some 0x0D
  else if kind = 0x74 then some 0x09
  else none

/-- What a first half of a surrogate pair stands for without its second half. -/
def unpaired : Option Nat → List UInt8
  | some _ => Utf8.replacement
  | none => []

/-- The bytes of a code unit on its own, or the first half of a pair that it is. -/
def single (unit : Nat) : List UInt8 × Option Nat :=
  if 0xD800 ≤ unit ∧ unit < 0xDC00 then ([], some unit)
  else if 0xDC00 ≤ unit ∧ unit < 0xE000 then (Utf8.replacement, none)
  else (encodeRune unit, none)

/-- The bytes of a code unit behind what may be the first half of its pair. -/
def paired (half : Option Nat) (unit : Nat) : List UInt8 × Option Nat :=
  match half with
  | none => single unit
  | some high =>
      if 0xDC00 ≤ unit ∧ unit < 0xE000 then
        (encodeRune (0x10000 + (high - 0xD800) * 1024 + (unit - 0xDC00)), none)
      else (Utf8.replacement ++ (single unit).1, (single unit).2)

/-- The bytes up to the closing quote and the text behind it, with the first half of a surrogate pair just read. -/
def scanFrom (half : Option Nat) (text : List UInt8) : Option (List UInt8 × List UInt8) :=
  match text with
  | [] => none
  | byte :: rest =>
      if byte = 0x22 then some (unpaired half, rest)
      else if byte = 0x5C then
        match rest with
        | [] => none
        | kind :: tail =>
            if kind = 0x75 then
              match tail with
              | first :: second :: third :: fourth :: tail =>
                  match codeUnit first second third fourth with
                  | none => none
                  | some unit =>
                      (scanFrom (paired half unit).2 tail).map fun (bytes, after) =>
                        ((paired half unit).1 ++ bytes, after)
              | _ => none
            else
              match unescape kind with
              | none => none
              | some plain => (scanFrom none tail).map fun (bytes, after) => (unpaired half ++ plain :: bytes, after)
      else if byte < 0x20 then none
      else (scanFrom none rest).map fun (bytes, after) => (unpaired half ++ byte :: bytes, after)
termination_by structural text

/-- The string behind an opening quote, and the text behind the closing one. -/
def scanString (text : List UInt8) : Option (List UInt8 × List UInt8) :=
  (scanFrom none text).map fun (bytes, after) => (Utf8.coerce bytes, after)

theorem anyHexValue_hexDigit {digit : Nat} (h : digit < 16) : anyHexValue (hexDigit digit) = some digit := by
  interval_cases digit <;> rfl

theorem codeUnit_low {byte : UInt8} (h : byte < 0x80) :
    codeUnit 0x30 0x30 (hexDigit (byte.toNat / 16)) (hexDigit (byte.toNat % 16)) = some byte.toNat := by
  have hbyte : byte.toNat < 128 := h
  have hzero : anyHexValue 0x30 = some 0 := rfl
  simp only [codeUnit, hzero, anyHexValue_hexDigit (show byte.toNat / 16 < 16 by omega),
    anyHexValue_hexDigit (show byte.toNat % 16 < 16 by omega), Option.bind_eq_bind, Option.bind_some]
  congr 1
  omega

theorem encodeRune_low {byte : UInt8} (h : byte < 0x80) : encodeRune byte.toNat = [byte] := by
  have hbyte : byte.toNat < 0x80 := h
  rw [encodeRune, if_pos hbyte, UInt8.ofNat_toNat]

theorem scanFrom_quote (rest : List UInt8) : scanFrom none (0x22 :: rest) = some ([], rest) := by
  rw [scanFrom.eq_def]
  rfl

/-- What is neither a quote, a backslash nor a control character is read as it stands. -/
theorem scanFrom_cons {byte : UInt8} (hquote : byte ≠ 0x22) (hslash : byte ≠ 0x5C) (hcontrol : ¬byte < 0x20)
    (rest : List UInt8) :
    scanFrom none (byte :: rest) = (scanFrom none rest).map fun (bytes, after) => (byte :: bytes, after) := by
  rw [scanFrom.eq_def]
  dsimp only
  rw [if_neg hquote, if_neg hslash, if_neg hcontrol]
  rfl

theorem scanFrom_high {byte : UInt8} (h : 0x80 ≤ byte) (rest : List UInt8) :
    scanFrom none (byte :: rest) = (scanFrom none rest).map fun (bytes, after) => (byte :: bytes, after) := by
  have hbyte : 128 ≤ byte.toNat := h
  refine scanFrom_cons ?_ ?_ ?_ rest
  · rintro rfl
    exact absurd h (by decide)
  · rintro rfl
    exact absurd h (by decide)
  · intro hcontrol
    have hlow : byte.toNat < 32 := hcontrol
    omega

theorem plain_bounds {byte : UInt8} (h : isPlain byte = true) :
    byte < 0x80 ∧ byte ≠ 0x22 ∧ byte ≠ 0x5C ∧ ¬byte < 0x20 := by
  simp only [isPlain, Bool.and_eq_true, decide_eq_true_eq, bne_iff_ne] at h
  exact ⟨h.1.1.1.1.1.2, h.1.1.1.1.2, h.1.1.1.2, UInt8.not_lt.mpr h.1.1.1.1.1.1⟩

theorem scanFrom_unescape {kind plain : UInt8} (hkind : kind ≠ 0x75) (hplain : unescape kind = some plain)
    (rest : List UInt8) :
    scanFrom none (0x5C :: kind :: rest) = (scanFrom none rest).map fun (bytes, after) => (plain :: bytes, after) := by
  rw [scanFrom.eq_def]
  dsimp only
  rw [if_neg (by decide), if_pos rfl, if_neg hkind, hplain]
  rfl

theorem scanFrom_codeUnit {first second third fourth : UInt8} {unit : Nat} {bytes : List UInt8}
    (hunit : codeUnit first second third fourth = some unit) (hsingle : single unit = (bytes, none))
    (rest : List UInt8) :
    scanFrom none (0x5C :: 0x75 :: first :: second :: third :: fourth :: rest) =
      (scanFrom none rest).map fun (content, after) => (bytes ++ content, after) := by
  have hpaired : paired none unit = (bytes, none) := hsingle
  rw [scanFrom.eq_def]
  dsimp only
  rw [if_neg (by decide), if_pos rfl, if_pos rfl, hunit]
  dsimp only
  rw [hpaired]

theorem scanFrom_escape {byte : UInt8} (h : byte < 0x80) (rest : List UInt8) :
    scanFrom none (escape byte ++ rest) = (scanFrom none rest).map fun (bytes, after) => (byte :: bytes, after) := by
  have hbyte : byte.toNat < 0x80 := h
  unfold escape
  split_ifs with hself hb hf hn hr ht
  · rcases hself with rfl | rfl
    · exact scanFrom_unescape (by decide) rfl rest
    · exact scanFrom_unescape (by decide) rfl rest
  · rw [hb]
    exact scanFrom_unescape (by decide) rfl rest
  · rw [hf]
    exact scanFrom_unescape (by decide) rfl rest
  · rw [hn]
    exact scanFrom_unescape (by decide) rfl rest
  · rw [hr]
    exact scanFrom_unescape (by decide) rfl rest
  · rw [ht]
    exact scanFrom_unescape (by decide) rfl rest
  · have hsingle : single byte.toNat = ([byte], none) := by
      rw [single, if_neg (by omega), if_neg (by omega), encodeRune_low h]
    exact scanFrom_codeUnit (codeUnit_low h) hsingle rest

theorem scanFrom_replacementEscape (rest : List UInt8) :
    scanFrom none (replacementEscape ++ rest) =
      (scanFrom none rest).map fun (bytes, after) => (Utf8.replacement ++ bytes, after) := by
  have hunit : codeUnit 0x66 0x66 0x66 0x64 = some 0xFFFD := rfl
  have hsingle : single 0xFFFD = (Utf8.replacement, none) := rfl
  exact scanFrom_codeUnit hunit hsingle rest

theorem scanFrom_separatorEscape {last : UInt8} (h : last = 0xA8 ∨ last = 0xA9) (rest : List UInt8) :
    scanFrom none (separatorEscape last ++ rest) =
      (scanFrom none rest).map fun (bytes, after) => (0xE2 :: 0x80 :: last :: bytes, after) := by
  rcases h with rfl | rfl
  · have hunit : codeUnit 0x32 0x30 0x32 0x38 = some 0x2028 := rfl
    have hsingle : single 0x2028 = ([0xE2, 0x80, 0xA8], none) := rfl
    exact scanFrom_codeUnit hunit hsingle rest
  · have hunit : codeUnit 0x32 0x30 0x32 0x39 = some 0x2029 := rfl
    have hsingle : single 0x2029 = ([0xE2, 0x80, 0xA9], none) := rfl
    exact scanFrom_codeUnit hunit hsingle rest

/-- A sequence that is no line separator is written as it is. -/
theorem quoteFrom_sequence {first : UInt8} {rest : List UInt8} {count : Nat} (hplain : ¬isPlain first = true)
    (hascii : ¬first < 0x80) (hsequence : Utf8.following first rest = some count)
    (hother : ∀ second third tail, rest = second :: third :: tail →
      ¬(first = 0xE2 ∧ second = 0x80 ∧ (third = 0xA8 ∨ third = 0xA9))) :
    quoteFrom 0 (first :: rest) = first :: quoteFrom count rest := by
  rw [quoteFrom, if_neg hplain, if_neg hascii, hsequence]
  rcases rest with _ | ⟨second, _ | ⟨third, tail⟩⟩
  · rfl
  · rfl
  · exact if_neg (hother second third tail rfl)

/-- A line separator is escaped. -/
theorem quoteFrom_separator {third : UInt8} (hthird : third = 0xA8 ∨ third = 0xA9) (tail : List UInt8) :
    quoteFrom 0 (0xE2 :: 0x80 :: third :: tail) = separatorEscape third ++ quoteFrom 0 tail := by
  have hcount : Utf8.following 0xE2 (0x80 :: third :: tail) = some 2 := by
    rcases hthird with rfl | rfl <;> rfl
  rw [quoteFrom, if_neg (by decide), if_neg (by decide), hcount]
  exact if_pos ⟨rfl, rfl, hthird⟩

/-- Reading back what was written between the quotes.  The induction is on the length, since an escape covers up to
three bytes. -/
theorem scanFrom_quoteFrom (pending : Nat) (bytes after : List UInt8)
    (hpending : ∀ byte ∈ bytes.take pending, 0x80 ≤ byte) :
    scanFrom none (quoteFrom pending bytes ++ 0x22 :: after) = some (Utf8.coerceFrom pending bytes, after) := by
  induction hlength : bytes.length using Nat.strong_induction_on generalizing pending bytes with
  | _ length ih =>
  subst hlength
  cases bytes with
  | nil =>
      rw [quoteFrom, Utf8.coerceFrom]
      exact scanFrom_quote after
  | cons first rest =>
      have hnext : ∀ count, (∀ byte ∈ rest.take count, 0x80 ≤ byte) →
          scanFrom none (quoteFrom count rest ++ 0x22 :: after) = some (Utf8.coerceFrom count rest, after) :=
        fun count hcount => ih rest.length (Nat.lt_succ_self _) count rest hcount rfl
      cases pending with
      | succ pending =>
          have hhigh : 0x80 ≤ first := hpending first (by simp)
          have hrest := hnext pending fun other hother => hpending other (by simp [hother])
          rw [quoteFrom, Utf8.coerceFrom, List.cons_append, scanFrom_high hhigh, hrest]
          rfl
      | zero =>
          by_cases hplain : isPlain first = true
          · obtain ⟨hascii, hquote, hslash, hcontrol⟩ := plain_bounds hplain
            rw [quoteFrom, if_pos hplain, Utf8.coerceFrom_sequence (Utf8.following_ascii hascii rest), List.cons_append,
              scanFrom_cons hquote hslash hcontrol, hnext 0 (by simp)]
            rfl
          by_cases hascii : first < 0x80
          · rw [quoteFrom, if_neg hplain, if_pos hascii, Utf8.coerceFrom_sequence (Utf8.following_ascii hascii rest),
              List.append_assoc, scanFrom_escape hascii, hnext 0 (by simp)]
            rfl
          cases hsequence : Utf8.following first rest with
          | none =>
              rw [quoteFrom, if_neg hplain, if_neg hascii, hsequence, Utf8.coerceFrom_invalid hsequence]
              dsimp only
              rw [List.append_assoc, scanFrom_replacementEscape, hnext 0 (by simp)]
              rfl
          | some count =>
              by_cases hseparator : ∃ third tail, first = 0xE2 ∧ rest = 0x80 :: third :: tail ∧ (third = 0xA8 ∨ third = 0xA9)
              · obtain ⟨third, tail, rfl, rfl, hthird⟩ := hseparator
                have hcount : Utf8.following 0xE2 (0x80 :: third :: tail) = some 2 := by
                  rcases hthird with rfl | rfl <;> rfl
                have htail := ih tail.length (by simp only [List.length_cons]; omega) 0 tail (by simp) rfl
                rw [quoteFrom_separator hthird, Utf8.coerceFrom_sequence hcount, List.append_assoc,
                  scanFrom_separatorEscape hthird, htail]
                rfl
              · have hhigh : 0x80 ≤ first := UInt8.not_lt.mp hascii
                have hkept : ∀ second third tail, rest = second :: third :: tail →
                    ¬(first = 0xE2 ∧ second = 0x80 ∧ (third = 0xA8 ∨ third = 0xA9)) := by
                  rintro second third tail rfl ⟨hfirst, rfl, hthird⟩
                  exact hseparator ⟨third, tail, hfirst, rfl, hthird⟩
                rw [quoteFrom_sequence hplain hascii hsequence hkept, Utf8.coerceFrom_sequence hsequence,
                  List.cons_append, scanFrom_high hhigh, hnext count (Utf8.following_high hsequence)]
                rfl

/-- A string reads back with its invalid bytes replaced. -/
theorem scanString_quote (bytes after : List UInt8) :
    scanString (quoteFrom 0 bytes ++ 0x22 :: after) = some (Utf8.coerce bytes, after) := by
  have hscan := scanFrom_quoteFrom 0 bytes after (by simp)
  rw [scanString, hscan]
  simp only [Option.map_some]
  rw [← Utf8.coerce, Utf8.coerce_coerce]

/-! ### Numbers -/

def decimal (value : Nat) : List UInt8 :=
  if value = 0 then [0x30] else (Nat.digits 10 value).reverse.map fun digit => UInt8.ofNat (0x30 + digit)

def isDigit (byte : UInt8) : Bool := 0x30 ≤ byte && byte ≤ 0x39

/-- The number of a string of digits, most significant first. -/
def decimalValue (digits : List UInt8) : Nat :=
  Nat.ofDigits 10 (digits.reverse.map fun byte => byte.toNat - 0x30)

/-- Whether the text goes on with a fraction or an exponent. -/
def isFractional : List UInt8 → Bool
  | byte :: _ => byte == 0x2E || byte == 0x65 || byte == 0x45
  | [] => false

/-- The natural number in front of a text: no leading zero, no fraction and no exponent. -/
def scanNatural (text : List UInt8) : Option (Nat × List UInt8) :=
  let digits := text.takeWhile isDigit
  let rest := text.dropWhile isDigit
  if digits = [] ∨ (digits.head? = some 0x30 ∧ digits.length ≠ 1) ∨ isFractional rest then none
  else some (decimalValue digits, rest)

/-- A number in front of the text ends there. -/
def Stops (text : List UInt8) : Prop := text.takeWhile isDigit = [] ∧ isFractional text = false

theorem stops_nil : Stops [] := ⟨rfl, rfl⟩

theorem Stops.dropWhile {text : List UInt8} (h : Stops text) : text.dropWhile isDigit = text := by
  have hsplit := List.takeWhile_append_dropWhile (p := isDigit) (l := text)
  rwa [h.1, List.nil_append] at hsplit

theorem isDigit_digit {digit : Nat} (h : digit < 10) : isDigit (UInt8.ofNat (0x30 + digit)) = true := by
  interval_cases digit <;> rfl

theorem digit_value {digit : Nat} (h : digit < 10) : (UInt8.ofNat (0x30 + digit)).toNat - 0x30 = digit := by
  interval_cases digit <;> rfl

theorem isDigit_decimal (value : Nat) : ∀ byte ∈ decimal value, isDigit byte = true := by
  unfold decimal
  split_ifs
  · simp [isDigit]
  · intro byte hbyte
    obtain ⟨digit, hdigit, rfl⟩ := List.mem_map.mp hbyte
    exact isDigit_digit (Nat.digits_lt_base (by decide) (List.mem_reverse.mp hdigit))

theorem decimalValue_decimal (value : Nat) : decimalValue (decimal value) = value := by
  unfold decimal
  split_ifs with hzero
  · rw [hzero]
    rfl
  · have hdigits : ((Nat.digits 10 value).map fun digit => UInt8.ofNat (0x30 + digit)).map
        (fun byte => byte.toNat - 0x30) = Nat.digits 10 value := by
      rw [List.map_map]
      conv_rhs => rw [← List.map_id (Nat.digits 10 value)]
      exact List.map_congr_left fun digit hdigit => digit_value (Nat.digits_lt_base (by decide) hdigit)
    rw [decimalValue, ← List.map_reverse, List.reverse_reverse, hdigits, Nat.ofDigits_digits]

/-- A number of more than one digit does not start with a zero. -/
theorem decimal_head (value : Nat) : ¬((decimal value).head? = some 0x30 ∧ (decimal value).length ≠ 1) := by
  rintro ⟨hhead, hlength⟩
  unfold decimal at hhead hlength
  split_ifs at hhead hlength with hzero
  · exact hlength rfl
  · have hne : Nat.digits 10 value ≠ [] := Nat.digits_ne_nil_iff_ne_zero.mpr hzero
    rw [List.head?_map, List.head?_reverse, List.getLast?_eq_some_getLast hne, Option.map_some,
      Option.some.injEq] at hhead
    have hlast := digit_value (Nat.digits_lt_base (by decide) (List.getLast_mem hne))
    rw [hhead] at hlast
    exact Nat.getLast_digit_ne_zero 10 hzero hlast.symm

theorem decimal_ne_nil (value : Nat) : decimal value ≠ [] := by
  unfold decimal
  split_ifs with hzero
  · simp
  · simpa [Nat.digits_eq_nil_iff_eq_zero] using hzero

theorem scanNatural_decimal (value : Nat) {rest : List UInt8} (hrest : Stops rest) :
    scanNatural (decimal value ++ rest) = some (value, rest) := by
  have htake : (decimal value ++ rest).takeWhile isDigit = decimal value := by
    rw [List.takeWhile_append_of_pos (isDigit_decimal value), hrest.1, List.append_nil]
  have hdrop : (decimal value ++ rest).dropWhile isDigit = rest := by
    rw [List.dropWhile_append_of_pos (isDigit_decimal value), hrest.dropWhile]
  simp only [scanNatural]
  rw [htake, hdrop, if_neg, decimalValue_decimal]
  simp only [decimal_ne_nil, decimal_head, hrest.2, or_self, not_false_eq_true, Bool.false_eq_true]

/-! ### Values -/

def isBlank (byte : UInt8) : Bool := byte == 0x20 || byte == 0x09 || byte == 0x0A || byte == 0x0D

def skipBlank (text : List UInt8) : List UInt8 := text.dropWhile isBlank

section Items

variable {α : Type} (item : List UInt8 → Option (α × List UInt8)) (close : UInt8)

/-- The items up to the closing bracket, of which there is at least one. -/
def scanItems : Nat → List UInt8 → Option (List α × List UInt8)
  | 0, _ => none
  | fuel + 1, text => do
      let (head, rest) ← item text
      match skipBlank rest with
      | [] => none
      | byte :: after =>
          if byte = 0x2C then do
            let (tail, last) ← scanItems fuel after
            some (head :: tail, last)
          else if byte = close then some ([head], after)
          else none

/-- The items behind an opening bracket. -/
def scanList (fuel : Nat) (text : List UInt8) : Option (List α × List UInt8) :=
  match skipBlank text with
  | [] => none
  | byte :: after => if byte = close then some ([], after) else scanItems item close fuel text

/-- A member of an object. -/
def scanMember (text : List UInt8) : Option ((List UInt8 × α) × List UInt8) :=
  match skipBlank text with
  | [] => none
  | byte :: rest =>
      if byte = 0x22 then do
        let (name, behind) ← scanString rest
        match skipBlank behind with
        | [] => none
        | colon :: after =>
            if colon = 0x3A then do
              let (value, last) ← item after
              some ((name, value), last)
            else none
      else none

end Items

/-- The text behind a word that the text has to start with. -/
def scanWord (word : List UInt8) (value : Value) (text : List UInt8) : Option (Value × List UInt8) :=
  if word <+: text then some (value, text.drop word.length) else none

def nullWord : List UInt8 := [0x6E, 0x75, 0x6C, 0x6C]
def trueWord : List UInt8 := [0x74, 0x72, 0x75, 0x65]
def falseWord : List UInt8 := [0x66, 0x61, 0x6C, 0x73, 0x65]

/-- The first value of a text and what is behind it. -/
def scanValue : Nat → List UInt8 → Option (Value × List UInt8)
  | 0, _ => none
  | fuel + 1, text =>
      match skipBlank text with
      | [] => none
      | byte :: rest =>
          if byte = 0x22 then (scanString rest).map fun (bytes, after) => (.string bytes, after)
          else if byte = 0x5B then
            (scanList (scanValue fuel) 0x5D fuel rest).map fun (elements, after) => (.array elements, after)
          else if byte = 0x7B then
            (scanList (scanMember (scanValue fuel)) 0x7D fuel rest).map fun (members, after) => (.object members, after)
          else if byte = 0x6E then scanWord nullWord .null (byte :: rest)
          else if byte = 0x74 then scanWord trueWord (.bool true) (byte :: rest)
          else if byte = 0x66 then scanWord falseWord (.bool false) (byte :: rest)
          else if byte = 0x2D then
            (scanNatural rest).map fun (magnitude, after) => (.number (-(magnitude : Int)), after)
          else (scanNatural (byte :: rest)).map fun (magnitude, after) => (.number magnitude, after)

/-- The only value of a text. -/
def parse (text : List UInt8) : Option Value := do
  let (value, rest) ← scanValue (text.length + 1) text
  if skipBlank rest = [] then some value else none

/-- The text of the only value of a text. -/
def rawValue (fuel : Nat) (text : List UInt8) : Option (List UInt8 × List UInt8) :=
  (scanValue fuel text).map fun (_, rest) =>
    ((skipBlank text).take ((skipBlank text).length - rest.length), rest)

/-- The members of a text that holds one object, each with the text of its value. -/
def parseMembers (text : List UInt8) : Option (List (List UInt8 × List UInt8)) :=
  match skipBlank text with
  | [] => none
  | byte :: rest =>
      if byte = 0x7B then do
        let (members, after) ← scanList (scanMember (rawValue text.length)) 0x7D text.length rest
        if skipBlank after = [] then some members else none
      else none

mutual

def render : Value → List UInt8
  | .null => nullWord
  | .bool true => trueWord
  | .bool false => falseWord
  | .number value => if value < 0 then 0x2D :: decimal value.natAbs else decimal value.natAbs
  | .string bytes => quote bytes
  | .array [] => [0x5B, 0x5D]
  | .array (element :: rest) => 0x5B :: (render element ++ renderElements rest)
  | .object [] => [0x7B, 0x7D]
  | .object ((name, value) :: rest) => 0x7B :: (quote name ++ 0x3A :: (render value ++ renderMembers rest))

/-- The text behind an element of an array. -/
def renderElements : List Value → List UInt8
  | [] => [0x5D]
  | element :: rest => 0x2C :: (render element ++ renderElements rest)

/-- The text behind a member of an object. -/
def renderMembers : List (List UInt8 × Value) → List UInt8
  | [] => [0x7D]
  | (name, value) :: rest => 0x2C :: (quote name ++ 0x3A :: (render value ++ renderMembers rest))

end

mutual

/-- The value that reads back: every string coerced. -/
def coerced : Value → Value
  | .null => .null
  | .bool value => .bool value
  | .number value => .number value
  | .string bytes => .string (Utf8.coerce bytes)
  | .array elements => .array (coercedElements elements)
  | .object members => .object (coercedMembers members)

def coercedElements : List Value → List Value
  | [] => []
  | element :: rest => coerced element :: coercedElements rest

def coercedMembers : List (List UInt8 × Value) → List (List UInt8 × Value)
  | [] => []
  | (name, value) :: rest => (Utf8.coerce name, coerced value) :: coercedMembers rest

end

/-! ### Reading back what was written -/

theorem skipBlank_cons {byte : UInt8} (h : isBlank byte = false) (rest : List UInt8) :
    skipBlank (byte :: rest) = byte :: rest := List.dropWhile_cons_of_neg (by simp [h])

/-- Texts with a comma in front of each and a bracket behind them. -/
def trailing (close : UInt8) : List (List UInt8) → List UInt8
  | [] => [close]
  | text :: rest => 0x2C :: (text ++ trailing close rest)

theorem renderElements_eq (elements : List Value) :
    renderElements elements = trailing 0x5D (elements.map render) := by
  induction elements with
  | nil => rfl
  | cons element rest ih => rw [renderElements, ih, List.map_cons, trailing]

/-- The text of a member whose value has the given text. -/
def memberText (name text : List UInt8) : List UInt8 := quote name ++ 0x3A :: text

theorem renderMembers_eq (members : List (List UInt8 × Value)) :
    renderMembers members = trailing 0x7D (members.map fun member => memberText member.1 (render member.2)) := by
  induction members with
  | nil => rfl
  | cons member rest ih =>
      rw [renderMembers, ih, List.map_cons, trailing, memberText, List.append_assoc, List.cons_append]

section Items

variable {α : Type} {item : List UInt8 → Option (α × List UInt8)}

/-- A text that is read as one value, whatever it stops in front of. -/
def Reads (item : List UInt8 → Option (α × List UInt8)) (text : List UInt8) (value : α) : Prop :=
  ∀ rest, Stops rest → item (text ++ rest) = some (value, rest)

/-- A closing bracket. -/
structure Closes (close : UInt8) : Prop where
  not_blank : isBlank close = false
  not_comma : close ≠ 0x2C
  stops : ∀ rest, Stops (close :: rest)

theorem closes_bracket : Closes 0x5D := ⟨rfl, by decide, fun _ => ⟨rfl, rfl⟩⟩

theorem closes_brace : Closes 0x7D := ⟨rfl, by decide, fun _ => ⟨rfl, rfl⟩⟩

theorem Closes.stops_trailing {close : UInt8} (hclose : Closes close) (texts : List (List UInt8))
    (after : List UInt8) : Stops (trailing close texts ++ after) := by
  cases texts with
  | nil => exact hclose.stops after
  | cons text rest => exact ⟨rfl, rfl⟩

theorem scanItems_trailing {close : UInt8} (hclose : Closes close) {texts : List (List UInt8)} {values : List α}
    (hreads : List.Forall₂ (Reads item) texts values) {text : List UInt8} {value : α} (hread : Reads item text value)
    (after : List UInt8) {fuel : Nat} (hfuel : texts.length < fuel) :
    scanItems item close fuel (text ++ (trailing close texts ++ after)) = some (value :: values, after) := by
  induction hreads generalizing text value fuel with
  | nil =>
      obtain ⟨fuel, rfl⟩ := Nat.exists_eq_succ_of_ne_zero (show fuel ≠ 0 by omega)
      rw [scanItems, hread _ (hclose.stops_trailing [] after)]
      simp [trailing, skipBlank_cons hclose.not_blank, hclose.not_comma]
  | @cons next nextValue rest restValues hnext hrest ih =>
      obtain ⟨fuel, rfl⟩ := Nat.exists_eq_succ_of_ne_zero (show fuel ≠ 0 by omega)
      have htail := ih hnext (show rest.length < fuel by simpa using hfuel)
      have hblank : skipBlank (0x2C :: (next ++ (trailing close rest ++ after))) =
          0x2C :: (next ++ (trailing close rest ++ after)) := skipBlank_cons rfl _
      rw [scanItems, hread _ (hclose.stops_trailing (next :: rest) after)]
      simp [trailing, hblank, htail]

theorem scanList_nil {close : UInt8} (hclose : Closes close) (fuel : Nat) (after : List UInt8) :
    scanList item close fuel (close :: after) = some ([], after) := by
  rw [scanList, skipBlank_cons hclose.not_blank]
  simp

/-- The text of an item starts with something else than the closing bracket. -/
def Starts (close : UInt8) (text : List UInt8) : Prop :=
  ∃ byte rest, text = byte :: rest ∧ isBlank byte = false ∧ byte ≠ close

theorem scanList_cons {close : UInt8} (hclose : Closes close) {texts : List (List UInt8)} {values : List α}
    (hreads : List.Forall₂ (Reads item) texts values) {text : List UInt8} {value : α} (hread : Reads item text value)
    (hstarts : Starts close text) (after : List UInt8) {fuel : Nat} (hfuel : texts.length < fuel) :
    scanList item close fuel (text ++ (trailing close texts ++ after)) = some (value :: values, after) := by
  obtain ⟨byte, rest, rfl, hblank, hother⟩ := hstarts
  have hitems := scanItems_trailing hclose hreads hread after hfuel
  rw [scanList, List.cons_append, skipBlank_cons hblank]
  simpa [hother] using hitems

theorem reads_member {text : List UInt8} {value : α} (hread : Reads item text value) (name : List UInt8) :
    Reads (scanMember item) (memberText name text) (Utf8.coerce name, value) := by
  intro rest hrest
  have hscan := scanString_quote name (0x3A :: (text ++ rest))
  have hquote : skipBlank (quote name ++ 0x3A :: (text ++ rest)) =
      0x22 :: (quoteFrom 0 name ++ 0x22 :: 0x3A :: (text ++ rest)) := by
    simp [quote, skipBlank_cons (show isBlank 0x22 = false from rfl)]
  have hcolon : skipBlank (0x3A :: (text ++ rest)) = 0x3A :: (text ++ rest) := skipBlank_cons rfl _
  rw [memberText, List.append_assoc, List.cons_append, scanMember, hquote]
  simp [hscan, hcolon, hread rest hrest]

end Items

theorem starts_memberText (name text : List UInt8) : Starts 0x7D (memberText name text) :=
  ⟨0x22, quoteFrom 0 name ++ [0x22] ++ 0x3A :: text, rfl, rfl, by decide⟩

theorem digit_bounds {byte : UInt8} (h : isDigit byte = true) :
    isBlank byte = false ∧ byte ≠ 0x22 ∧ byte ≠ 0x5B ∧ byte ≠ 0x7B ∧ byte ≠ 0x6E ∧ byte ≠ 0x74 ∧ byte ≠ 0x66 ∧
      byte ≠ 0x2D ∧ byte ≠ 0x5D := by
  simp only [isDigit, Bool.and_eq_true, decide_eq_true_eq] at h
  have hlow : 48 ≤ byte.toNat := h.1
  have hhigh : byte.toNat ≤ 57 := h.2
  have hne : ∀ other : UInt8, other.toNat < 48 ∨ 57 < other.toNat → byte ≠ other := by
    rintro other hother rfl
    omega
  refine ⟨?_, hne _ (by decide), hne _ (by decide), hne _ (by decide), hne _ (by decide), hne _ (by decide),
    hne _ (by decide), hne _ (by decide), hne _ (by decide)⟩
  simp [isBlank, hne 0x20 (by decide), hne 0x09 (by decide), hne 0x0A (by decide), hne 0x0D (by decide)]

theorem decimal_cons (value : Nat) : ∃ byte rest, decimal value = byte :: rest ∧ isDigit byte = true := by
  cases hdecimal : decimal value with
  | nil => exact absurd hdecimal (decimal_ne_nil value)
  | cons byte rest => exact ⟨byte, rest, rfl, isDigit_decimal value byte (by simp [hdecimal])⟩

theorem skipBlank_decimal (value : Nat) (rest : List UInt8) : skipBlank (decimal value ++ rest) = decimal value ++ rest := by
  obtain ⟨byte, digits, heq, hdigit⟩ := decimal_cons value
  rw [heq, List.cons_append]
  exact skipBlank_cons (digit_bounds hdigit).1 _

theorem decimal_ascii (value : Nat) : ∀ byte ∈ decimal value, byte < 0x80 := by
  intro byte hbyte
  have hdigit := isDigit_decimal value byte hbyte
  rw [isDigit, Bool.and_eq_true, decide_eq_true_eq, decide_eq_true_eq] at hdigit
  exact UInt8.lt_of_le_of_lt hdigit.2 (by decide)

theorem starts_render (value : Value) : Starts 0x5D (render value) := by
  cases value with
  | null => exact ⟨_, _, rfl, rfl, by decide⟩
  | bool value => cases value <;> exact ⟨_, _, rfl, rfl, by decide⟩
  | number value =>
      rw [render]
      split_ifs
      · exact ⟨_, _, rfl, rfl, by decide⟩
      · obtain ⟨byte, rest, hdecimal, hdigit⟩ := decimal_cons value.natAbs
        obtain ⟨hblank, _, _, _, _, _, _, _, hclose⟩ := digit_bounds hdigit
        exact ⟨byte, rest, hdecimal, hblank, hclose⟩
  | string bytes => exact ⟨_, _, rfl, rfl, by decide⟩
  | array elements => cases elements <;> exact ⟨_, _, rfl, rfl, by decide⟩
  | object members => cases members <;> exact ⟨_, _, rfl, rfl, by decide⟩

theorem render_length_pos (value : Value) : 0 < (render value).length := by
  obtain ⟨byte, rest, hrender, _⟩ := starts_render value
  rw [hrender]
  exact Nat.succ_pos _

theorem scanValue_number (value : Int) {rest : List UInt8} (hrest : Stops rest) (fuel : Nat) :
    scanValue (fuel + 1) (render (.number value) ++ rest) = some (.number value, rest) := by
  rw [render]
  split_ifs with hnegative
  · have hblank : skipBlank (0x2D :: (decimal value.natAbs ++ rest)) = 0x2D :: (decimal value.natAbs ++ rest) :=
      skipBlank_cons rfl _
    have hvalue : -(value.natAbs : Int) = value := by omega
    rw [List.cons_append, scanValue, hblank]
    dsimp only
    rw [if_neg (by decide), if_neg (by decide), if_neg (by decide), if_neg (by decide), if_neg (by decide),
      if_neg (by decide), if_pos rfl, scanNatural_decimal value.natAbs hrest, Option.map_some, hvalue]
  · obtain ⟨byte, tail, hdecimal, hdigit⟩ := decimal_cons value.natAbs
    have hscan := scanNatural_decimal value.natAbs hrest
    obtain ⟨hblank, hquote, harray, hobject, hnull, htrue, hfalse, hminus, _⟩ := digit_bounds hdigit
    have hvalue : (value.natAbs : Int) = value := by omega
    rw [hdecimal, List.cons_append] at hscan ⊢
    rw [scanValue, skipBlank_cons hblank]
    dsimp only
    rw [if_neg hquote, if_neg harray, if_neg hobject, if_neg hnull, if_neg htrue, if_neg hfalse, if_neg hminus, hscan,
      Option.map_some, hvalue]

theorem scanValue_string (bytes rest : List UInt8) (fuel : Nat) :
    scanValue (fuel + 1) (quote bytes ++ rest) = some (.string (Utf8.coerce bytes), rest) := by
  have hquote : skipBlank (quote bytes ++ rest) = 0x22 :: (quoteFrom 0 bytes ++ 0x22 :: rest) := by
    simp [quote, skipBlank_cons (show isBlank 0x22 = false from rfl)]
  rw [scanValue, hquote]
  simp [scanString_quote]

theorem scanValue_array (fuel : Nat) {text after : List UInt8} {elements : List Value}
    (hlist : scanList (scanValue fuel) 0x5D fuel text = some (elements, after)) :
    scanValue (fuel + 1) (0x5B :: text) = some (.array elements, after) := by
  rw [scanValue, skipBlank_cons (show isBlank 0x5B = false from rfl)]
  simp [hlist]

theorem scanValue_object (fuel : Nat) {text after : List UInt8} {members : List (List UInt8 × Value)}
    (hlist : scanList (scanMember (scanValue fuel)) 0x7D fuel text = some (members, after)) :
    scanValue (fuel + 1) (0x7B :: text) = some (.object members, after) := by
  rw [scanValue, skipBlank_cons (show isBlank 0x7B = false from rfl)]
  simp [hlist]

theorem length_lt_renderElements (elements : List Value) : elements.length < (renderElements elements).length := by
  induction elements with
  | nil => exact Nat.zero_lt_one
  | cons element rest ih =>
      simp only [renderElements, List.length_cons, List.length_append]
      omega

theorem length_lt_renderMembers (members : List (List UInt8 × Value)) :
    members.length < (renderMembers members).length := by
  induction members with
  | nil => exact Nat.zero_lt_one
  | cons member rest ih =>
      simp only [renderMembers, List.length_cons, List.length_append]
      omega

mutual

/-- A value reads back with its strings coerced. -/
theorem reads_render : ∀ (value : Value) {fuel : Nat}, (render value).length ≤ fuel →
    Reads (scanValue fuel) (render value) (coerced value)
  | .null, fuel, hfuel => by
      have hpos := render_length_pos .null
      obtain ⟨fuel, rfl⟩ := Nat.exists_eq_succ_of_ne_zero (show fuel ≠ 0 by omega)
      exact fun rest _ => rfl
  | .bool true, fuel, hfuel => by
      have hpos := render_length_pos (.bool true)
      obtain ⟨fuel, rfl⟩ := Nat.exists_eq_succ_of_ne_zero (show fuel ≠ 0 by omega)
      exact fun rest _ => rfl
  | .bool false, fuel, hfuel => by
      have hpos := render_length_pos (.bool false)
      obtain ⟨fuel, rfl⟩ := Nat.exists_eq_succ_of_ne_zero (show fuel ≠ 0 by omega)
      exact fun rest _ => rfl
  | .number value, fuel, hfuel => by
      have := render_length_pos (.number value)
      obtain ⟨fuel, rfl⟩ := Nat.exists_eq_succ_of_ne_zero (show fuel ≠ 0 by omega)
      intro rest hrest
      exact scanValue_number value hrest fuel
  | .string bytes, fuel, hfuel => by
      have := render_length_pos (.string bytes)
      obtain ⟨fuel, rfl⟩ := Nat.exists_eq_succ_of_ne_zero (show fuel ≠ 0 by omega)
      intro rest hrest
      exact scanValue_string bytes rest fuel
  | .array [], fuel, hfuel => by
      have hpos := render_length_pos (.array [])
      obtain ⟨fuel, rfl⟩ := Nat.exists_eq_succ_of_ne_zero (show fuel ≠ 0 by omega)
      intro rest _
      exact scanValue_array fuel (scanList_nil closes_bracket fuel rest)
  | .array (element :: elements), fuel, hfuel => by
      simp only [render, List.length_cons, List.length_append] at hfuel
      obtain ⟨fuel, rfl⟩ := Nat.exists_eq_succ_of_ne_zero (show fuel ≠ 0 by omega)
      intro rest _
      have hcount := length_lt_renderElements elements
      have hread : Reads (scanValue fuel) (render element) (coerced element) := reads_render element (by omega)
      have hreads : List.Forall₂ (Reads (scanValue fuel)) (elements.map render) (coercedElements elements) :=
        reads_renderElements elements (by omega)
      have hlist := scanList_cons closes_bracket hreads hread (starts_render element) rest
        (show (elements.map render).length < fuel by simp only [List.length_map]; omega)
      rw [← renderElements_eq, ← List.append_assoc] at hlist
      exact scanValue_array fuel hlist
  | .object [], fuel, hfuel => by
      have hpos := render_length_pos (.object [])
      obtain ⟨fuel, rfl⟩ := Nat.exists_eq_succ_of_ne_zero (show fuel ≠ 0 by omega)
      intro rest _
      exact scanValue_object fuel (scanList_nil closes_brace fuel rest)
  | .object ((name, value) :: members), fuel, hfuel => by
      simp only [render, List.length_cons, List.length_append] at hfuel
      obtain ⟨fuel, rfl⟩ := Nat.exists_eq_succ_of_ne_zero (show fuel ≠ 0 by omega)
      intro rest _
      have hcount := length_lt_renderMembers members
      have hread : Reads (scanValue fuel) (render value) (coerced value) := reads_render value (by omega)
      have hreads : List.Forall₂ (Reads (scanMember (scanValue fuel)))
          (members.map fun member => memberText member.1 (render member.2)) (coercedMembers members) :=
        reads_renderMembers members (by omega)
      have hlist := scanList_cons closes_brace hreads (reads_member hread name)
        (starts_memberText name (render value)) rest (show (members.map _).length < fuel by simp only [List.length_map]; omega)
      rw [← renderMembers_eq, memberText] at hlist
      have hvalue := scanValue_object fuel hlist
      simpa [render, coerced, coercedMembers] using hvalue

theorem reads_renderElements : ∀ (elements : List Value) {fuel : Nat}, (renderElements elements).length ≤ fuel →
    List.Forall₂ (Reads (scanValue fuel)) (elements.map render) (coercedElements elements)
  | [], _, _ => .nil
  | element :: rest, fuel, hfuel => by
      rw [renderElements, List.length_cons, List.length_append] at hfuel
      exact .cons (reads_render element (by omega)) (reads_renderElements rest (by omega))

theorem reads_renderMembers : ∀ (members : List (List UInt8 × Value)) {fuel : Nat},
    (renderMembers members).length ≤ fuel →
    List.Forall₂ (Reads (scanMember (scanValue fuel)))
      (members.map fun member => memberText member.1 (render member.2)) (coercedMembers members)
  | [], _, _ => .nil
  | (name, value) :: rest, fuel, hfuel => by
      simp only [renderMembers, List.length_cons, List.length_append] at hfuel
      exact .cons (reads_member (reads_render value (by omega)) name) (reads_renderMembers rest (by omega))

end

/-- The text of a value, with blanks behind it, reads back as that value. -/
theorem parse_render (value : Value) {blanks : List UInt8} (hblanks : skipBlank blanks = []) (hstops : Stops blanks) :
    parse (render value ++ blanks) = some (coerced value) := by
  have hread := reads_render value (show (render value).length ≤ (render value ++ blanks).length + 1 by simp; omega)
    blanks hstops
  rw [parse, hread]
  simp [hblanks]

theorem skipBlank_render (value : Value) (rest : List UInt8) : skipBlank (render value ++ rest) = render value ++ rest := by
  obtain ⟨byte, tail, hrender, hblank, _⟩ := starts_render value
  rw [hrender, List.cons_append, skipBlank_cons hblank]

/-- The text of a value is its own text. -/
theorem reads_rawValue (value : Value) {fuel : Nat} (hfuel : (render value).length ≤ fuel) :
    Reads (rawValue fuel) (render value) (render value) := by
  intro rest hrest
  simp [rawValue, reads_render value hfuel rest hrest, skipBlank_render]

theorem reads_rawMembers (members : List (List UInt8 × Value)) {fuel : Nat}
    (hfuel : (renderMembers members).length ≤ fuel) :
    List.Forall₂ (Reads (scanMember (rawValue fuel)))
      (members.map fun member => memberText member.1 (render member.2))
      (members.map fun member => (Utf8.coerce member.1, render member.2)) := by
  induction members with
  | nil => exact .nil
  | cons member rest ih =>
      simp only [renderMembers, List.length_cons, List.length_append] at hfuel
      exact .cons (reads_member (reads_rawValue member.2 (by omega)) member.1) (ih (by omega))

theorem scanList_rawMembers (members : List (List UInt8 × Value)) :
    ∃ body, render (.object members) = 0x7B :: body ∧ ∀ (fuel : Nat) (after : List UInt8), body.length ≤ fuel →
      scanList (scanMember (rawValue fuel)) 0x7D fuel (body ++ after) =
        some (members.map fun member => (Utf8.coerce member.1, render member.2), after) := by
  cases members with
  | nil => exact ⟨[0x7D], rfl, fun fuel after _ => scanList_nil closes_brace fuel after⟩
  | cons member rest =>
      refine ⟨quote member.1 ++ 0x3A :: (render member.2 ++ renderMembers rest), by rw [render], fun fuel after hfuel => ?_⟩
      simp only [List.length_append, List.length_cons] at hfuel
      have hcount := length_lt_renderMembers rest
      have hread : Reads (rawValue fuel) (render member.2) (render member.2) := reads_rawValue member.2 (by omega)
      have hreads : List.Forall₂ (Reads (scanMember (rawValue fuel)))
          (rest.map fun member => memberText member.1 (render member.2))
          (rest.map fun member => (Utf8.coerce member.1, render member.2)) := reads_rawMembers rest (by omega)
      have hlist := scanList_cons closes_brace hreads (reads_member hread member.1)
        (starts_memberText member.1 (render member.2)) after
        (show (rest.map _).length < fuel by simp only [List.length_map]; omega)
      rw [← renderMembers_eq, memberText] at hlist
      simpa using hlist

/-- The members of an object are found with the texts they were written with. -/
theorem parseMembers_render (members : List (List UInt8 × Value)) {blanks : List UInt8}
    (hblanks : skipBlank blanks = []) :
    parseMembers (render (.object members) ++ blanks) =
      some (members.map fun member => (Utf8.coerce member.1, render member.2)) := by
  obtain ⟨body, hrender, hlist⟩ := scanList_rawMembers members
  have hscan := hlist (0x7B :: (body ++ blanks)).length blanks (by simp only [List.length_cons, List.length_append]; omega)
  rw [parseMembers, skipBlank_render, hrender, List.cons_append]
  dsimp only
  rw [if_pos rfl, hscan]
  simp [hblanks]

end Json
