import Mathlib

/-!
# UTF-8

Byte strings are read sequence by sequence.  A byte that starts no sequence is invalid on its own, and may be replaced by
the encoding of U+FFFD; what is left unchanged by that is exactly what is valid.
-/

namespace Utf8

def isContinuation (byte : UInt8) : Bool := 0x80 ≤ byte && byte ≤ 0xBF

/-- The second bytes that may follow a first byte: no overlong form, no surrogate, nothing above U+10FFFF. -/
def acceptsSecond (first second : UInt8) : Bool :=
  if first = 0xE0 then 0xA0 ≤ second && second ≤ 0xBF
  else if first = 0xED then 0x80 ≤ second && second ≤ 0x9F
  else if first = 0xF0 then 0x90 ≤ second && second ≤ 0xBF
  else if first = 0xF4 then 0x80 ≤ second && second ≤ 0x8F
  else isContinuation second

/-- How many bytes follow the first one in the sequence at the front of a byte string, if there is one. -/
def following (first : UInt8) (rest : List UInt8) : Option Nat :=
  if first < 0x80 then some 0
  else if 0xC2 ≤ first && first ≤ 0xDF then
    match rest with
    | second :: _ => if isContinuation second then some 1 else none
    | _ => none
  else if 0xE0 ≤ first && first ≤ 0xEF then
    match rest with
    | second :: third :: _ => if acceptsSecond first second && isContinuation third then some 2 else none
    | _ => none
  else if 0xF0 ≤ first && first ≤ 0xF4 then
    match rest with
    | second :: third :: fourth :: _ =>
        if acceptsSecond first second && isContinuation third && isContinuation fourth then some 3 else none
    | _ => none
  else none

/-- Past `pending` bytes of a sequence, the rest is a string of sequences. -/
def validFrom : Nat → List UInt8 → Bool
  | _, [] => true
  | pending + 1, _ :: rest => validFrom pending rest
  | 0, first :: rest =>
      match following first rest with
      | some count => validFrom count rest
      | none => false

def valid (bytes : List UInt8) : Bool := validFrom 0 bytes

/-- The encoding of U+FFFD. -/
def replacement : List UInt8 := [0xEF, 0xBF, 0xBD]

/-- Past `pending` bytes of a sequence, each byte that starts no sequence is replaced. -/
def coerceFrom : Nat → List UInt8 → List UInt8
  | _, [] => []
  | pending + 1, byte :: rest => byte :: coerceFrom pending rest
  | 0, first :: rest =>
      match following first rest with
      | some count => first :: coerceFrom count rest
      | none => replacement ++ coerceFrom 0 rest

def coerce (bytes : List UInt8) : List UInt8 := coerceFrom 0 bytes

theorem coerceFrom_sequence {first : UInt8} {rest : List UInt8} {count : Nat}
    (hsequence : following first rest = some count) :
    coerceFrom 0 (first :: rest) = first :: coerceFrom count rest := by
  rw [coerceFrom, hsequence]

theorem coerceFrom_invalid {first : UInt8} {rest : List UInt8} (hinvalid : following first rest = none) :
    coerceFrom 0 (first :: rest) = replacement ++ coerceFrom 0 rest := by
  rw [coerceFrom, hinvalid]

theorem following_ascii {first : UInt8} (hascii : first < 0x80) (rest : List UInt8) :
    following first rest = some 0 := by
  simp [following, hascii]

theorem isContinuation_high {byte : UInt8} (h : isContinuation byte = true) : 0x80 ≤ byte := by
  simp only [isContinuation, Bool.and_eq_true, decide_eq_true_eq] at h
  exact h.1

theorem acceptsSecond_high {first second : UInt8} (h : acceptsSecond first second = true) : 0x80 ≤ second := by
  unfold acceptsSecond at h
  split_ifs at h
  · simp only [Bool.and_eq_true, decide_eq_true_eq] at h
    exact UInt8.le_trans (by decide) h.1
  · simp only [Bool.and_eq_true, decide_eq_true_eq] at h
    exact h.1
  · simp only [Bool.and_eq_true, decide_eq_true_eq] at h
    exact UInt8.le_trans (by decide) h.1
  · simp only [Bool.and_eq_true, decide_eq_true_eq] at h
    exact h.1
  · exact isContinuation_high h

/-- The bytes of a sequence behind its first one are not ASCII. -/
theorem following_high {first : UInt8} {rest : List UInt8} {count : Nat}
    (hsequence : following first rest = some count) : ∀ byte ∈ rest.take count, 0x80 ≤ byte := by
  unfold following at hsequence
  split_ifs at hsequence with hone htwo hthree hfour
  · cases hsequence
    simp
  · match rest, hsequence with
    | second :: tail, hsequence =>
        obtain ⟨hsecond, rfl⟩ : isContinuation second = true ∧ 1 = count := by simpa using hsequence
        simpa using isContinuation_high hsecond
  · match rest, hsequence with
    | second :: third :: tail, hsequence =>
        obtain ⟨⟨hsecond, hthird⟩, rfl⟩ :
            (acceptsSecond first second = true ∧ isContinuation third = true) ∧ 2 = count := by
          simpa using hsequence
        simpa using ⟨acceptsSecond_high hsecond, isContinuation_high hthird⟩
  · match rest, hsequence with
    | second :: third :: fourth :: tail, hsequence =>
        obtain ⟨⟨⟨hsecond, hthird⟩, hfourth⟩, rfl⟩ : ((acceptsSecond first second = true ∧
            isContinuation third = true) ∧ isContinuation fourth = true) ∧ 3 = count := by
          simpa using hsequence
        simpa using ⟨acceptsSecond_high hsecond, isContinuation_high hthird, isContinuation_high hfourth⟩

theorem length_le_coerceFrom (pending : Nat) (bytes : List UInt8) :
    bytes.length ≤ (coerceFrom pending bytes).length := by
  induction bytes generalizing pending with
  | nil => exact Nat.zero_le _
  | cons byte rest ih =>
      cases pending with
      | succ pending => exact Nat.succ_le_succ (ih pending)
      | zero =>
          rw [coerceFrom]
          split
          · exact Nat.succ_le_succ (ih _)
          · have hrest := ih 0
            simp only [replacement, List.length_append, List.length_cons, List.length_nil]
            omega

theorem coerceFrom_eq_self_iff (pending : Nat) (bytes : List UInt8) :
    coerceFrom pending bytes = bytes ↔ validFrom pending bytes = true := by
  induction bytes generalizing pending with
  | nil =>
      rw [coerceFrom, validFrom]
      simp
  | cons byte rest ih =>
      cases pending with
      | succ pending => rw [coerceFrom, validFrom, List.cons.injEq, ih pending, and_iff_right rfl]
      | zero =>
          rw [coerceFrom, validFrom]
          cases hsequence : following byte rest with
          | some count => simp only [List.cons.injEq, ih count, true_and]
          | none =>
              -- a replacement makes the string longer
              refine iff_of_false (fun hsame => ?_) Bool.false_ne_true
              have hlength := congrArg List.length hsame
              have hrest := length_le_coerceFrom 0 rest
              simp only [replacement, List.length_append, List.length_cons, List.length_nil] at hlength
              omega

/-- Replacing invalid bytes changes exactly what is invalid. -/
theorem coerce_eq_self_iff (bytes : List UInt8) : coerce bytes = bytes ↔ valid bytes = true :=
  coerceFrom_eq_self_iff 0 bytes

/-- Coercing what follows a first byte keeps the sequence that the byte starts. -/
theorem following_coerceFrom {first : UInt8} {rest : List UInt8} {count : Nat}
    (hsequence : following first rest = some count) : following first (coerceFrom count rest) = some count := by
  unfold following at hsequence
  split_ifs at hsequence with hone htwo hthree hfour
  · cases hsequence
    simp [following, hone]
  · match rest, hsequence with
    | second :: tail, hsequence =>
        obtain ⟨hsecond, rfl⟩ : isContinuation second = true ∧ 1 = count := by simpa using hsequence
        simp [following, hone, htwo, coerceFrom, hsecond]
  · match rest, hsequence with
    | second :: third :: tail, hsequence =>
        obtain ⟨hnext, rfl⟩ : (acceptsSecond first second = true ∧ isContinuation third = true) ∧ 2 = count := by
          simpa using hsequence
        simp [following, hone, htwo, hthree, coerceFrom, hnext]
  · match rest, hsequence with
    | second :: third :: fourth :: tail, hsequence =>
        obtain ⟨hnext, rfl⟩ : ((acceptsSecond first second = true ∧ isContinuation third = true) ∧
            isContinuation fourth = true) ∧ 3 = count := by
          simpa using hsequence
        simp [following, hone, htwo, hthree, hfour, coerceFrom, hnext]

theorem validFrom_coerceFrom (pending : Nat) (bytes : List UInt8) :
    validFrom pending (coerceFrom pending bytes) = true := by
  induction bytes generalizing pending with
  | nil => rw [coerceFrom, validFrom]
  | cons byte rest ih =>
      cases pending with
      | succ pending =>
          rw [coerceFrom, validFrom]
          exact ih pending
      | zero =>
          rw [coerceFrom]
          cases hsequence : following byte rest with
          | some count =>
              dsimp only
              rw [validFrom, following_coerceFrom hsequence]
              exact ih count
          | none =>
              have hthree : following 0xEF (0xBF :: 0xBD :: coerceFrom 0 rest) = some 2 := rfl
              simp only [replacement, List.cons_append, List.nil_append, validFrom, hthree]
              exact ih 0

theorem valid_coerce (bytes : List UInt8) : valid (coerce bytes) = true := validFrom_coerceFrom 0 bytes

@[simp] theorem coerce_coerce (bytes : List UInt8) : coerce (coerce bytes) = coerce bytes :=
  (coerce_eq_self_iff _).mpr (valid_coerce bytes)

/-- All bytes of a constant, tested at once. -/
theorem ascii_of_all {bytes : List UInt8} (h : (bytes.all fun byte => decide (byte < 0x80)) = true) :
    ∀ byte ∈ bytes, byte < 0x80 :=
  fun byte hmem => of_decide_eq_true (List.all_eq_true.mp h byte hmem)

theorem coerce_ascii {bytes : List UInt8} (h : ∀ byte ∈ bytes, byte < 0x80) : coerce bytes = bytes := by
  rw [coerce]
  induction bytes with
  | nil => rw [coerceFrom]
  | cons byte rest ih =>
      rw [coerceFrom_sequence (following_ascii (h byte (by simp)) rest), ih fun other hother => h other (by simp [hother])]

/-! ### Around an ASCII byte -/

theorem not_isContinuation {byte : UInt8} (hascii : byte < 0x80) : isContinuation byte = false := by
  have hnot : ¬0x80 ≤ byte := UInt8.not_le.mpr hascii
  simp [isContinuation, hnot]

theorem not_acceptsSecond {first byte : UInt8} (hascii : byte < 0x80) : acceptsSecond first byte = false := by
  cases haccepts : acceptsSecond first byte with
  | false => rfl
  | true => exact absurd (acceptsSecond_high haccepts) (UInt8.not_le.mpr hascii)

/-- A sequence does not reach over an ASCII byte. -/
theorem following_append {byte : UInt8} (hascii : byte < 0x80) (first : UInt8) (front back : List UInt8) :
    following first (front ++ byte :: back) = following first front := by
  have hcontinuation := not_isContinuation hascii
  have hsecond : acceptsSecond first byte = false := not_acceptsSecond hascii
  unfold following
  split_ifs
  · rfl
  · cases front with
    | nil => simp [hcontinuation]
    | cons second rest => rfl
  · match front with
    | [] => cases back <;> simp [hsecond]
    | [second] => simp [hcontinuation]
    | second :: third :: rest => rfl
  · match front with
    | [] =>
        match back with
        | [] => rfl
        | [_] => rfl
        | _ :: _ :: _ => simp [hsecond]
    | [second] => cases back <;> simp [hcontinuation]
    | [second, third] => simp [hcontinuation]
    | second :: third :: fourth :: rest => rfl
  · rfl

theorem following_le {first : UInt8} {rest : List UInt8} {count : Nat} (hsequence : following first rest = some count) :
    count ≤ rest.length := by
  unfold following at hsequence
  split_ifs at hsequence
  · cases hsequence
    exact Nat.zero_le _
  · match rest, hsequence with
    | second :: tail, hsequence =>
        obtain ⟨_, rfl⟩ : isContinuation second = true ∧ 1 = count := by simpa using hsequence
        simp
  · match rest, hsequence with
    | second :: third :: tail, hsequence =>
        obtain ⟨_, rfl⟩ : (acceptsSecond first second = true ∧ isContinuation third = true) ∧ 2 = count := by
          simpa using hsequence
        simp
  · match rest, hsequence with
    | second :: third :: fourth :: tail, hsequence =>
        obtain ⟨_, rfl⟩ : ((acceptsSecond first second = true ∧ isContinuation third = true) ∧
            isContinuation fourth = true) ∧ 3 = count := by
          simpa using hsequence
        simp

theorem validFrom_append {byte : UInt8} (hascii : byte < 0x80) (front back : List UInt8) (pending : Nat)
    (hpending : pending ≤ front.length) :
    validFrom pending (front ++ byte :: back) = (validFrom pending front && validFrom 0 back) := by
  induction front generalizing pending with
  | nil =>
      obtain rfl : pending = 0 := by simpa using hpending
      simp [validFrom, following_ascii hascii]
  | cons first rest ih =>
      cases pending with
      | succ pending =>
          rw [List.cons_append, validFrom, validFrom]
          exact ih pending (by simpa using hpending)
      | zero =>
          rw [List.cons_append, validFrom, validFrom, following_append hascii]
          cases hsequence : following first rest with
          | none => rfl
          | some count => exact ih count (following_le hsequence)

/-- What stands around an ASCII byte is valid on its own. -/
theorem valid_append {byte : UInt8} (hascii : byte < 0x80) (front back : List UInt8) :
    valid (front ++ byte :: back) = (valid front && valid back) :=
  validFrom_append hascii front back 0 (Nat.zero_le _)

theorem valid_ascii {bytes : List UInt8} (h : ∀ byte ∈ bytes, byte < 0x80) : valid bytes = true :=
  (coerce_eq_self_iff bytes).mp (coerce_ascii h)

/-- ASCII text behind a text. -/
theorem valid_append_ascii (front : List UInt8) {back : List UInt8} (h : ∀ byte ∈ back, byte < 0x80) :
    valid (front ++ back) = valid front := by
  cases back with
  | nil => rw [List.append_nil]
  | cons byte rest =>
      have hrest : valid rest = true := valid_ascii fun other hother => h other (by simp [hother])
      rw [valid_append (h byte (by simp)), hrest, Bool.and_true]

end Utf8
