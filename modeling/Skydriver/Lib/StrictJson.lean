import Skydriver.Lib.Json

/-!
# JSON records, written bare and read strictly

The text of a derived record: strings escape only what they have to, so that text beyond ASCII stands for itself.  A
string that is read has to be UTF-8, half a surrogate pair is an error, and so is a member that occurs twice.  A record
reads from an object, whose members come in any order among unknown ones, or from an array of all its members.
-/

namespace StrictJson

open Json (codeUnit decimal encodeRune scanNatural skipBlank unescape Stops)

/-! ### Strings -/

/-- What a byte is written as between quotes. -/
def escape (byte : UInt8) : List UInt8 :=
  if byte = 0x22 ∨ byte = 0x5C then [0x5C, byte]
  else if byte = 0x08 then [0x5C, 0x62]
  else if byte = 0x09 then [0x5C, 0x74]
  else if byte = 0x0A then [0x5C, 0x6E]
  else if byte = 0x0C then [0x5C, 0x66]
  else if byte = 0x0D then [0x5C, 0x72]
  else if byte < 0x20 then [0x5C, 0x75, 0x30, 0x30, hexDigit (byte.toNat / 16), hexDigit (byte.toNat % 16)]
  else [byte]

def quote (bytes : List UInt8) : List UInt8 := 0x22 :: (bytes.flatMap escape ++ [0x22])

def isLowSurrogate (unit : Nat) : Bool := 0xDC00 ≤ unit && unit < 0xE000

def isHighSurrogate (unit : Nat) : Bool := 0xD800 ≤ unit && unit < 0xDC00

/-- The bytes up to the closing quote, and the text behind it. -/
def scanBytes (text : List UInt8) : Option (List UInt8 × List UInt8) :=
  match text with
  | [] => none
  | byte :: rest =>
      if byte = 0x22 then some ([], rest)
      else if byte = 0x5C then
        match rest with
        | [] => none
        | kind :: tail =>
            if kind = 0x75 then
              match tail with
              | first :: second :: third :: fourth :: tail =>
                  match codeUnit first second third fourth with
                  | none => none
                  | some unit =>
                      if isLowSurrogate unit then none
                      else if isHighSurrogate unit then
                        match tail with
                        | slash :: mark :: fifth :: sixth :: seventh :: eighth :: tail =>
                            if slash = 0x5C ∧ mark = 0x75 then
                              match (codeUnit fifth sixth seventh eighth).filter isLowSurrogate with
                              | none => none
                              | some low =>
                                  (scanBytes tail).map fun (bytes, after) =>
                                    (encodeRune (0x10000 + (unit - 0xD800) * 1024 + (low - 0xDC00)) ++ bytes, after)
                            else none
                        | _ => none
                      else (scanBytes tail).map fun (bytes, after) => (encodeRune unit ++ bytes, after)
              | _ => none
            else
              match unescape kind with
              | none => none
              | some plain => (scanBytes tail).map fun (bytes, after) => (plain :: bytes, after)
      else if byte < 0x20 then none
      else (scanBytes rest).map fun (bytes, after) => (byte :: bytes, after)
termination_by structural text

/-- A string: a quote in front, and UTF-8 behind it. -/
def scanString (text : List UInt8) : Option (List UInt8 × List UInt8) :=
  match text with
  | [] => none
  | byte :: rest => if byte = 0x22 then (scanBytes rest).filter fun found => Utf8.valid found.1 else none

/-- An unsigned 64-bit integer. -/
def scanU64 (text : List UInt8) : Option (Nat × List UInt8) := (scanNatural text).filter fun found => found.1 < 2 ^ 64

theorem scanBytes_plain {byte : UInt8} (hquote : byte ≠ 0x22) (hslash : byte ≠ 0x5C) (hcontrol : ¬byte < 0x20)
    (rest : List UInt8) :
    scanBytes (byte :: rest) = (scanBytes rest).map fun (bytes, after) => (byte :: bytes, after) := by
  rw [scanBytes.eq_def]
  dsimp only
  rw [if_neg hquote, if_neg hslash, if_neg hcontrol]

theorem scanBytes_unescape {kind plain : UInt8} (hkind : kind ≠ 0x75) (hplain : unescape kind = some plain)
    (rest : List UInt8) :
    scanBytes (0x5C :: kind :: rest) = (scanBytes rest).map fun (bytes, after) => (plain :: bytes, after) := by
  rw [scanBytes.eq_def]
  dsimp only
  rw [if_neg (by decide), if_pos rfl, if_neg hkind, hplain]

theorem scanBytes_codeUnit {first second third fourth : UInt8} {unit : Nat}
    (hunit : codeUnit first second third fourth = some unit) (hlow : isLowSurrogate unit = false)
    (hhigh : isHighSurrogate unit = false) (rest : List UInt8) :
    scanBytes (0x5C :: 0x75 :: first :: second :: third :: fourth :: rest) =
      (scanBytes rest).map fun (bytes, after) => (encodeRune unit ++ bytes, after) := by
  rw [scanBytes.eq_def]
  dsimp only
  rw [if_neg (by decide), if_pos rfl, if_pos rfl, hunit]
  dsimp only
  rw [hlow, hhigh, if_neg Bool.false_ne_true, if_neg Bool.false_ne_true]

theorem scanBytes_escape (byte : UInt8) (rest : List UInt8) :
    scanBytes (escape byte ++ rest) = (scanBytes rest).map fun (bytes, after) => (byte :: bytes, after) := by
  unfold escape
  split_ifs with hself hb ht hn hf hr hcontrol
  · rcases hself with rfl | rfl
    · exact scanBytes_unescape (by decide) rfl rest
    · exact scanBytes_unescape (by decide) rfl rest
  · rw [hb]
    exact scanBytes_unescape (by decide) rfl rest
  · rw [ht]
    exact scanBytes_unescape (by decide) rfl rest
  · rw [hn]
    exact scanBytes_unescape (by decide) rfl rest
  · rw [hf]
    exact scanBytes_unescape (by decide) rfl rest
  · rw [hr]
    exact scanBytes_unescape (by decide) rfl rest
  · have hbyte : byte.toNat < 32 := hcontrol
    have hascii : byte < 0x80 := by
      rw [UInt8.lt_iff_toNat_lt]
      exact hbyte.trans (by decide)
    have hlow : isLowSurrogate byte.toNat = false := by
      rw [isLowSurrogate, Bool.and_eq_false_iff, decide_eq_false_iff_not]
      exact .inl (by omega)
    have hhigh : isHighSurrogate byte.toNat = false := by
      rw [isHighSurrogate, Bool.and_eq_false_iff, decide_eq_false_iff_not]
      exact .inl (by omega)
    have hscan := scanBytes_codeUnit (Json.codeUnit_low hascii) hlow hhigh rest
    rw [Json.encodeRune_low hascii] at hscan
    exact hscan
  · rw [not_or] at hself
    exact scanBytes_plain hself.1 hself.2 hcontrol rest

/-- Reading back what was written between the quotes. -/
theorem scanBytes_flatMap (bytes after : List UInt8) :
    scanBytes (bytes.flatMap escape ++ 0x22 :: after) = some (bytes, after) := by
  induction bytes with
  | nil =>
      rw [List.flatMap_nil, List.nil_append, scanBytes.eq_def]
      rfl
  | cons byte bytes ih =>
      rw [List.flatMap_cons, List.append_assoc, scanBytes_escape, ih]
      rfl

theorem scanString_quote {bytes : List UInt8} (hvalid : Utf8.valid bytes = true) (after : List UInt8) :
    scanString (quote bytes ++ after) = some (bytes, after) := by
  have hscan := scanBytes_flatMap bytes after
  rw [quote, List.cons_append, List.append_assoc, List.singleton_append, scanString, if_pos rfl, hscan, Option.filter_some, if_pos hvalid]

theorem scanU64_decimal {value : Nat} (hvalue : value < 2 ^ 64) {rest : List UInt8} (hrest : Stops rest) :
    scanU64 (decimal value ++ rest) = some (value, rest) := by
  rw [scanU64, Json.scanNatural_decimal value hrest, Option.filter_some, if_pos (decide_eq_true hvalue)]

/-! ### Records -/

section Members

variable {σ : Type} (member : List UInt8 → σ → List UInt8 → Option (σ × List UInt8))

/-- The members from a name on; `member` reads the value behind a name into what was read so far. -/
def scanMembers : Nat → σ → List UInt8 → Option (σ × List UInt8)
  | 0, _, _ => none
  | fuel + 1, state, text => do
      let (name, behind) ← scanString (skipBlank text)
      match skipBlank behind with
      | [] => none
      | colon :: value =>
          if colon = 0x3A then do
            let (state, behind) ← member name state (skipBlank value)
            match skipBlank behind with
            | [] => none
            | byte :: after =>
                if byte = 0x2C then scanMembers fuel state after
                else if byte = 0x7D then some (state, after)
                else none
          else none

/-- The members of an object behind its opening brace. -/
def scanObject (fuel : Nat) (state : σ) (text : List UInt8) : Option (σ × List UInt8) :=
  match skipBlank text with
  | [] => none
  | byte :: after => if byte = 0x7D then some (state, after) else scanMembers member fuel state text

/-- A member that was not read before. -/
def readOnce {α : Type} (known : Option α) (scan : List UInt8 → Option (α × List UInt8)) (store : α → σ)
    (value : List UInt8) : Option (σ × List UInt8) :=
  if known.isSome then none else (scan value).map fun (found, behind) => (store found, behind)

theorem readOnce_none {α : Type} {scan : List UInt8 → Option (α × List UInt8)} {store : α → σ} {value behind : List UInt8}
    {found : α} (h : scan value = some (found, behind)) : readOnce none scan store value = some (store found, behind) := by
  rw [readOnce, if_neg (by simp), h]
  rfl

variable {member}

/-- A member written without blanks, and what stands behind it. -/
theorem scanMembers_member {fuel : Nat} {name value behind : List UInt8} {state next : σ} {byte : UInt8}
    {after : List UInt8} (hname : Utf8.valid name = true) (hvalue : skipBlank value = value)
    (hmember : member name state value = some (next, behind)) (hbehind : skipBlank behind = byte :: after) :
    scanMembers member (fuel + 1) state (quote name ++ 0x3A :: value) =
      if byte = 0x2C then scanMembers member fuel next after else if byte = 0x7D then some (next, after) else none := by
  have hquote : skipBlank (quote name ++ 0x3A :: value) = quote name ++ 0x3A :: value := rfl
  have hcolon : skipBlank (0x3A :: value) = 0x3A :: value := rfl
  rw [scanMembers, hquote, scanString_quote hname]
  simp only [Option.bind_eq_bind, Option.bind_some]
  rw [hcolon]
  dsimp only
  rw [if_pos rfl, hvalue, hmember]
  simp only [Option.bind_some]
  rw [hbehind]

/-- An object that opens with a name. -/
theorem scanObject_quote (fuel : Nat) (state : σ) (name rest : List UInt8) :
    scanObject member fuel state (quote name ++ rest) = scanMembers member fuel state (quote name ++ rest) := by
  have hquote : skipBlank (quote name ++ rest) = 0x22 :: (name.flatMap escape ++ [0x22] ++ rest) := rfl
  rw [scanObject, hquote]
  dsimp only
  rw [if_neg (by decide)]

/-! ### Objects -/

/-- The text of a member. -/
def memberText (found : List UInt8 × List UInt8) : List UInt8 := quote found.1 ++ 0x3A :: found.2

/-- The text of an object with these names and values, behind its opening brace. -/
def objectText : List (List UInt8 × List UInt8) → List UInt8
  | [] => [0x7D]
  | first :: rest => memberText first ++ rest.flatMap (fun found => 0x2C :: memberText found) ++ [0x7D]

variable (member) in
/-- The members lead from one state to another, whatever stands behind each of them. -/
inductive Reads : σ → List (List UInt8 × List UInt8) → σ → Prop where
  | nil (state : σ) : Reads state [] state
  | cons {state next last : σ} {name value : List UInt8} {rest : List (List UInt8 × List UInt8)}
      (hname : Utf8.valid name = true) (hvalue : ∀ behind, skipBlank (value ++ behind) = value ++ behind)
      (hmember : ∀ byte after, byte = 0x2C ∨ byte = 0x7D →
        member name state (value ++ byte :: after) = some (next, byte :: after))
      (hrest : Reads next rest last) : Reads state ((name, value) :: rest) last

theorem scanMembers_of_reads {state last : σ} {first : List UInt8 × List UInt8} {rest : List (List UInt8 × List UInt8)}
    (h : Reads member state (first :: rest) last) {fuel : Nat} (hfuel : rest.length < fuel) (after : List UInt8) :
    scanMembers member fuel state (objectText (first :: rest) ++ after) = some (last, after) := by
  induction rest generalizing state first fuel with
  | nil =>
      obtain ⟨fuel, rfl⟩ := Nat.exists_eq_succ_of_ne_zero (Nat.ne_of_gt (Nat.zero_lt_of_lt hfuel))
      cases h with
      | cons hname hvalue hmember hrest =>
          cases hrest
          simp only [objectText, memberText, List.flatMap_nil, List.append_nil, List.append_assoc, List.cons_append,
            List.nil_append]
          rw [scanMembers_member hname (hvalue _) (hmember 0x7D after (.inr rfl)) rfl]
          rfl
  | cons second rest ih =>
      obtain ⟨fuel, rfl⟩ := Nat.exists_eq_succ_of_ne_zero (Nat.ne_of_gt (Nat.zero_lt_of_lt hfuel))
      cases h with
      | @cons _ next _ name value _ hname hvalue hmember hrest =>
          have htext : objectText ((name, value) :: second :: rest) ++ after =
              quote name ++ 0x3A :: (value ++ 0x2C :: (objectText (second :: rest) ++ after)) := by
            simp only [objectText, memberText, List.flatMap_cons, List.append_assoc, List.cons_append, List.nil_append]
          rw [htext, scanMembers_member hname (hvalue _) (hmember 0x2C _ (.inl rfl)) rfl, if_pos rfl]
          exact ih hrest (Nat.lt_of_succ_lt_succ hfuel)

/-- An object that was written is read back. -/
theorem scanObject_of_reads {state last : σ} {members : List (List UInt8 × List UInt8)} (h : Reads member state members last)
    {fuel : Nat} (hfuel : members.length ≤ fuel) (after : List UInt8) :
    scanObject member fuel state (objectText members ++ after) = some (last, after) := by
  cases members with
  | nil =>
      cases h
      rfl
  | cons first rest =>
      have htext : objectText (first :: rest) ++ after = quote first.1 ++
          (0x3A :: first.2 ++ rest.flatMap (fun found => 0x2C :: memberText found) ++ [0x7D] ++ after) := by
        simp only [objectText, memberText, List.append_assoc, List.cons_append]
      rw [htext, scanObject_quote, ← htext]
      exact scanMembers_of_reads h hfuel after

end Members

theorem length_le_objectText (members : List (List UInt8 × List UInt8)) : members.length ≤ (objectText members).length := by
  cases members with
  | nil => exact Nat.zero_le _
  | cons first rest =>
      have hrest : rest.length ≤ (rest.flatMap fun found => 0x2C :: memberText found).length := by
        induction rest with
        | nil => exact le_rfl
        | cons found rest ih =>
            rw [List.flatMap_cons, List.length_append, List.length_cons, List.length_cons]
            omega
      rw [objectText, List.length_append, List.length_append, List.length_cons, List.length_singleton]
      omega

theorem skipBlank_quote (bytes behind : List UInt8) : skipBlank (quote bytes ++ behind) = quote bytes ++ behind := rfl

/-- The text behind a byte, past blanks on both sides. -/
def expect (byte : UInt8) (text : List UInt8) : Option (List UInt8) :=
  match skipBlank text with
  | [] => none
  | found :: rest => if found = byte then some (skipBlank rest) else none

/-! ### Arrays -/

section Elements

variable {α : Type} (element : List UInt8 → Option (α × List UInt8))

/-- The elements from one on. -/
def scanElements : Nat → List UInt8 → Option (List α × List UInt8)
  | 0, _ => none
  | fuel + 1, text => do
      let (first, behind) ← element (skipBlank text)
      match skipBlank behind with
      | [] => none
      | byte :: after =>
          if byte = 0x2C then (scanElements fuel after).map fun (rest, after) => (first :: rest, after)
          else if byte = 0x5D then some ([first], after)
          else none

/-- The elements of an array behind its opening bracket. -/
def scanArray (fuel : Nat) (text : List UInt8) : Option (List α × List UInt8) :=
  match skipBlank text with
  | [] => none
  | byte :: after => if byte = 0x5D then some ([], after) else scanElements element fuel text

/-- The text of an array behind its opening bracket. -/
def arrayText : List (List UInt8) → List UInt8
  | [] => [0x5D]
  | first :: rest => first ++ rest.flatMap (fun found => 0x2C :: found) ++ [0x5D]

theorem length_le_arrayText (elements : List (List UInt8)) : elements.length ≤ (arrayText elements).length := by
  cases elements with
  | nil => exact Nat.zero_le _
  | cons first rest =>
      have hrest : rest.length ≤ (rest.flatMap fun found => 0x2C :: found).length := by
        induction rest with
        | nil => exact le_rfl
        | cons found rest ih =>
            rw [List.flatMap_cons, List.length_append, List.length_cons, List.length_cons]
            omega
      rw [arrayText, List.length_append, List.length_append, List.length_cons, List.length_singleton]
      omega

variable {element} {write : α → List UInt8}

theorem scanElements_arrayText (hblank : ∀ value behind, skipBlank (write value ++ behind) = write value ++ behind)
    {values : List α}
    (hread : ∀ value ∈ values, ∀ byte after, byte = 0x2C ∨ byte = 0x5D →
      element (write value ++ byte :: after) = some (value, byte :: after))
    (hvalues : values ≠ []) {fuel : Nat} (hfuel : values.length ≤ fuel) (after : List UInt8) :
    scanElements element fuel (arrayText (values.map write) ++ after) = some (values, after) := by
  induction values generalizing fuel with
  | nil => cases hvalues rfl
  | cons first rest ih =>
      obtain ⟨fuel, rfl⟩ := Nat.exists_eq_succ_of_ne_zero (Nat.ne_of_gt (Nat.zero_lt_of_lt hfuel))
      rw [List.forall_mem_cons] at hread
      cases rest with
      | nil =>
          have htext : arrayText ([first].map write) ++ after = write first ++ 0x5D :: after := by
            simp only [arrayText, List.map_cons, List.map_nil, List.flatMap_nil, List.append_nil, List.append_assoc,
              List.cons_append, List.nil_append]
          have hclose : skipBlank (0x5D :: after) = 0x5D :: after := rfl
          rw [htext, scanElements, hblank, hread.1 0x5D after (.inr rfl)]
          simp only [Option.bind_eq_bind, Option.bind_some]
          rw [hclose]
          rfl
      | cons second rest =>
          have htext : arrayText ((first :: second :: rest).map write) ++ after =
              write first ++ 0x2C :: (arrayText ((second :: rest).map write) ++ after) := by
            simp only [arrayText, List.map_cons, List.flatMap_cons, List.append_assoc, List.cons_append, List.nil_append]
          have hcomma : skipBlank (0x2C :: (arrayText ((second :: rest).map write) ++ after)) =
              0x2C :: (arrayText ((second :: rest).map write) ++ after) := rfl
          have hrest := ih hread.2 (List.cons_ne_nil second rest) (Nat.le_of_succ_le_succ hfuel)
          rw [htext, scanElements, hblank, hread.1 0x2C _ (.inl rfl)]
          simp only [Option.bind_eq_bind, Option.bind_some]
          rw [hcomma]
          dsimp only
          rw [if_pos rfl, hrest]
          rfl

/-- An array that was written is read back, if no element opens with a blank or a closing bracket. -/
theorem scanArray_arrayText {opening : UInt8} (hblank : ∀ rest, skipBlank (opening :: rest) = opening :: rest)
    (hopening : opening ≠ 0x5D) (hwrite : ∀ value, ∃ body, write value = opening :: body) {values : List α}
    (hread : ∀ value ∈ values, ∀ byte after, byte = 0x2C ∨ byte = 0x5D →
      element (write value ++ byte :: after) = some (value, byte :: after))
    {fuel : Nat} (hfuel : values.length ≤ fuel) (after : List UInt8) :
    scanArray element fuel (arrayText (values.map write) ++ after) = some (values, after) := by
  cases values with
  | nil => rfl
  | cons first rest =>
      have hskip (value : α) (behind : List UInt8) : skipBlank (write value ++ behind) = write value ++ behind := by
        obtain ⟨body, hbody⟩ := hwrite value
        rw [hbody, List.cons_append, hblank]
      have hscan := scanElements_arrayText hskip hread (List.cons_ne_nil first rest) hfuel after
      obtain ⟨body, hbody⟩ := hwrite first
      have htext : arrayText ((first :: rest).map write) ++ after =
          opening :: (body ++ (rest.map write).flatMap (fun found => 0x2C :: found) ++ [0x5D] ++ after) := by
        simp only [arrayText, List.map_cons, hbody, List.cons_append]
      rw [htext] at hscan ⊢
      rw [scanArray, hblank]
      dsimp only
      rw [if_neg hopening, hscan]

end Elements

end StrictJson
