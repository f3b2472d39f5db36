import Mathlib

/-!
# Non-negative SQL numbers

What SQLite computes on non-negative integers: 64-bit integers as long as the result fits, a double where `+` or `*`
overflows, and an error where `SUM` does.  A double that comes from an overflow is at least `2 ^ 63` whatever was rounded
away, which is all a comparison with a 64-bit integer can see.
-/

/-- The first integer that does not fit a signed column. -/
def integerBound : Nat := 2 ^ 63

/-- The nearest double of a natural number, ties to even. -/
def binary64 (value : Nat) : Nat :=
  if value < 2 ^ 53 then value
  else
    let unit := 2 ^ (value.log2 - 52)
    let quotient := value / unit
    let rest := value % unit
    if rest * 2 < unit ∨ (rest * 2 = unit ∧ quotient % 2 = 0) then quotient * unit else (quotient + 1) * unit

/-- An integer, or a double with an integral value. -/
inductive SqlNumber where
  | integer (value : Nat)
  | real (value : Nat)
deriving DecidableEq, Repr

/-- Powers of two are doubles, so rounding does not cross them. -/
theorem le_binary64 {value exponent : Nat} (hexponent : 53 ≤ exponent) (hvalue : 2 ^ exponent ≤ value) :
    2 ^ exponent ≤ binary64 value := by
  have hpos : value ≠ 0 := by
    intro hzero
    rw [hzero] at hvalue
    exact absurd hvalue (by simp)
  have hlarge : ¬value < 2 ^ 53 := by
    have := Nat.pow_le_pow_right (show 0 < 2 by omega) hexponent
    omega
  have hlog : exponent ≤ value.log2 := (Nat.le_log2 hpos).mpr hvalue
  have hself : 2 ^ value.log2 ≤ value := Nat.log2_self_le hpos
  have hunit : 2 ^ 52 * 2 ^ (value.log2 - 52) = 2 ^ value.log2 := by
    rw [← Nat.pow_add]
    congr 1
    omega
  have hquotient : 2 ^ 52 ≤ value / 2 ^ (value.log2 - 52) := by
    rw [Nat.le_div_iff_mul_le (Nat.two_pow_pos _), hunit]
    exact hself
  have hscaled : 2 ^ exponent ≤ value / 2 ^ (value.log2 - 52) * 2 ^ (value.log2 - 52) := by
    calc 2 ^ exponent ≤ 2 ^ value.log2 := Nat.pow_le_pow_right (by omega) hlog
      _ = 2 ^ 52 * 2 ^ (value.log2 - 52) := hunit.symm
      _ ≤ _ := Nat.mul_le_mul_right _ hquotient
  rw [binary64, if_neg hlarge]
  dsimp only
  split_ifs
  · exact hscaled
  · rw [Nat.add_mul]
    omega

namespace SqlNumber

/-- The operand of a floating-point operation. -/
def toDouble : SqlNumber → Nat
  | integer value => binary64 value
  | real value => value

def add : SqlNumber → SqlNumber → SqlNumber
  | integer left, integer right =>
      if left + right < integerBound then integer (left + right) else real (binary64 (binary64 left + binary64 right))
  | left, right => real (binary64 (left.toDouble + right.toDouble))

def mul : SqlNumber → SqlNumber → SqlNumber
  | integer left, integer right =>
      if left * right < integerBound then integer (left * right) else real (binary64 (binary64 left * binary64 right))
  | left, right => real (binary64 (left.toDouble * right.toDouble))

def isInteger : SqlNumber → Bool
  | integer _ => true
  | real _ => false

def value : SqlNumber → Nat
  | integer value => value
  | real value => value

/-- `COALESCE(SUM(…), 0)`; `none` is the error "integer overflow". -/
def sum (values : List SqlNumber) : Option SqlNumber :=
  if values.all isInteger then
    if (values.map SqlNumber.value).sum < integerBound then some (integer (values.map SqlNumber.value).sum) else none
  else some (real (values.foldl (fun total found => binary64 (total + found.toDouble)) 0))

/-- `… > limit`. -/
def exceeds (number : SqlNumber) (limit : Nat) : Bool := number.value > limit

/-- The number stands for `exact`: it is that integer, or a double where no integer fits. -/
def Denotes (number : SqlNumber) (exact : Nat) : Prop :=
  match number with
  | integer value => value = exact ∧ exact < integerBound
  | real value => integerBound ≤ value ∧ integerBound ≤ exact

theorem denotes_integer {value : Nat} (hvalue : value < integerBound) : (integer value).Denotes value := ⟨rfl, hvalue⟩

theorem le_binary64_bound {value : Nat} (hvalue : integerBound ≤ value) : integerBound ≤ binary64 value :=
  le_binary64 (by omega) hvalue

/-- Rounding loses at most half a unit of the last place. -/
theorem le_binary64_add {value : Nat} (hlow : 2 ^ 62 ≤ value) (hhigh : value < integerBound) :
    1024 ∣ binary64 value ∧ value ≤ binary64 value + 512 := by
  have hlog : value.log2 = 62 := by
    have hpos : value ≠ 0 := by omega
    have := (Nat.le_log2 hpos).mpr hlow
    have := (Nat.log2_lt hpos).mpr hhigh
    omega
  rw [binary64, if_neg (by omega), hlog]
  norm_num only
  split_ifs with hdown
  · exact ⟨Nat.dvd_mul_left _ _, by omega⟩
  · exact ⟨Nat.dvd_mul_left _ _, by omega⟩

/-- Nor does it cross a multiple of its unit. -/
theorem le_binary64_of_dvd {value below : Nat} (hhigh : value < 2 ^ 62) (hbelow : below ≤ value)
    (hdvd : 512 ∣ below) : below ≤ binary64 value := by
  rw [binary64]
  split_ifs with hsmall
  · exact hbelow
  · have hpos : value ≠ 0 := by omega
    have hlog : value.log2 < 62 := (Nat.log2_lt hpos).mpr hhigh
    have hunit : 2 ^ (value.log2 - 52) ∣ below := by
      refine Nat.dvd_trans ?_ hdvd
      exact Nat.pow_dvd_pow 2 (show value.log2 - 52 ≤ 9 by omega)
    obtain ⟨count, rfl⟩ := hunit
    have hcount : count ≤ value / 2 ^ (value.log2 - 52) := by
      rw [Nat.le_div_iff_mul_le (Nat.two_pow_pos _), Nat.mul_comm]
      exact hbelow
    have hscaled := Nat.mul_le_mul_left (2 ^ (value.log2 - 52)) hcount
    dsimp only
    split_ifs
    · rw [Nat.mul_comm (value / _)]
      exact hscaled
    · rw [Nat.mul_comm (value / _ + 1)]
      exact hscaled.trans (Nat.mul_le_mul_left _ (Nat.le_succ _))

/-- Half a unit below the bound rounds up to it. -/
theorem bound_le_binary64 {value : Nat} (hvalue : integerBound ≤ value + 512) : integerBound ≤ binary64 value := by
  by_cases hbound : integerBound ≤ value
  · exact le_binary64_bound hbound
  · rw [integerBound] at hvalue hbound ⊢
    have hlog : value.log2 = 62 := by
      have hpos : value ≠ 0 := by omega
      have := (Nat.le_log2 hpos).mpr (show 2 ^ 62 ≤ value by omega)
      have := (Nat.log2_lt hpos).mpr (show value < 2 ^ 63 by omega)
      omega
    rw [binary64, if_neg (by omega), hlog]
    norm_num only
    split_ifs with hdown
    · omega
    · omega

/-- A sum that leaves the integers is not rounded back into them. -/
theorem bound_le_binary64_add {left right : Nat} (hleft : left < integerBound) (hright : right < integerBound)
    (hsum : integerBound ≤ left + right) : integerBound ≤ binary64 (binary64 left + binary64 right) := by
  wlog hle : right ≤ left generalizing left right
  · rw [Nat.add_comm (binary64 left)]
    exact this hright hleft (by omega) (by omega)
  have hhalf : 2 ^ 62 ≤ left := by
    rw [integerBound] at hsum
    omega
  apply bound_le_binary64
  obtain ⟨hdvd, hloss⟩ := le_binary64_add hhalf hleft
  by_cases hboth : 2 ^ 62 ≤ right
  · have hfirst := le_binary64 (show 53 ≤ 62 by omega) hhalf
    have hsecond := le_binary64 (show 53 ≤ 62 by omega) hboth
    rw [integerBound]
    omega
  · by_cases hdone : integerBound ≤ binary64 left + 512
    · omega
    · -- what is missing to half a unit below the bound is a multiple of the unit of `right`
      have hmissing : 512 ∣ integerBound - 512 - binary64 left := by
        obtain ⟨count, hcount⟩ := hdvd
        rw [integerBound] at hdone ⊢
        omega
      have := le_binary64_of_dvd (show right < 2 ^ 62 by omega)
        (show integerBound - 512 - binary64 left ≤ right by omega) hmissing
      omega

theorem Denotes.add {left right : SqlNumber} {m n : Nat} (hleft : left.Denotes m) (hright : right.Denotes n) :
    (left.add right).Denotes (m + n) := by
  cases left with
  | integer a =>
      obtain ⟨rfl, ha⟩ := hleft
      cases right with
      | integer b =>
          obtain ⟨rfl, hb⟩ := hright
          rw [SqlNumber.add]
          split_ifs with hfits
          · exact ⟨rfl, hfits⟩
          · exact ⟨bound_le_binary64_add ha hb (by omega), by omega⟩
      | real b =>
          refine ⟨le_binary64_bound ?_, by have := hright.2; omega⟩
          have := hright.1
          simp only [toDouble]
          omega
  | real a =>
      refine ⟨le_binary64_bound ?_, by have := hleft.2; omega⟩
      have := hleft.1
      simp only [toDouble]
      omega

/-- The one product of the quota formulas. -/
theorem denotes_sixteen_mul (value : Nat) :
    ((integer 16).mul (integer value)).Denotes (16 * value) := by
  rw [mul]
  split_ifs with hfits
  · exact ⟨rfl, hfits⟩
  · refine ⟨le_binary64_bound ?_, by omega⟩
    have hlarge : 2 ^ 59 ≤ value := by
      rw [integerBound] at hfits
      omega
    have := le_binary64 (show 53 ≤ 59 by omega) hlarge
    have hsixteen : binary64 16 = 16 := by decide
    rw [hsixteen, integerBound]
    omega

theorem bound_le_foldl {values : List SqlNumber} {total : Nat}
    (h : integerBound ≤ total ∨ ∃ found ∈ values, integerBound ≤ found.toDouble) :
    integerBound ≤ values.foldl (fun total found => binary64 (total + found.toDouble)) total := by
  induction values generalizing total with
  | nil =>
      rcases h with h | ⟨found, hmem, _⟩
      · exact h
      · exact absurd hmem List.not_mem_nil
  | cons head tail ih =>
      rw [List.foldl_cons]
      apply ih
      rcases h with h | ⟨found, hmem, hfound⟩
      · exact .inl (le_binary64_bound (by omega))
      · rcases List.mem_cons.mp hmem with rfl | hmem
        · exact .inl (le_binary64_bound (by omega))
        · exact .inr ⟨found, hmem, hfound⟩

/-- `SUM` either denotes the exact sum or fails because that is no integer. -/
theorem sum_denotes {α : Type} {rows : List α} {number : α → SqlNumber} {exact : α → Nat}
    (hrows : ∀ row ∈ rows, (number row).Denotes (exact row)) :
    match sum (rows.map number) with
    | some total => total.Denotes (rows.map exact).sum
    | none => integerBound ≤ (rows.map exact).sum := by
  by_cases hall : (rows.map number).all isInteger = true
  · have hvalues : (rows.map number).map SqlNumber.value = rows.map exact := by
      rw [List.map_map]
      apply List.map_congr_left
      intro row hrow
      have hinteger := List.all_eq_true.mp hall (number row) (List.mem_map_of_mem hrow)
      have hdenotes := hrows row hrow
      cases hnumber : number row with
      | integer value =>
          rw [hnumber] at hdenotes
          simp only [Function.comp_apply, hnumber, SqlNumber.value]
          exact hdenotes.1
      | real value =>
          rw [hnumber] at hinteger
          cases hinteger
    rw [sum, if_pos hall, hvalues]
    split_ifs with hfits
    · exact ⟨rfl, hfits⟩
    · exact Nat.le_of_not_lt hfits
  · rw [sum, if_neg hall]
    simp only [List.all_eq_true, List.mem_map, forall_exists_index, and_imp, forall_apply_eq_imp_iff₂, not_forall,
      exists_prop] at hall
    obtain ⟨row, hrow, hreal⟩ := hall
    have hdenotes := hrows row hrow
    cases hnumber : number row with
    | integer value =>
        rw [hnumber] at hreal
        exact absurd rfl hreal
    | real value =>
        rw [hnumber] at hdenotes
        refine ⟨bound_le_foldl (.inr ⟨number row, List.mem_map_of_mem hrow, ?_⟩), ?_⟩
        · rw [hnumber]
          exact hdenotes.1
        · exact hdenotes.2.trans (List.single_le_sum (by simp) _ (List.mem_map_of_mem hrow))

/-- A comparison with an integer is exact. -/
theorem Denotes.exceeds_iff {number : SqlNumber} {exact limit : Nat} (h : number.Denotes exact)
    (hlimit : limit < integerBound) : number.exceeds limit = true ↔ limit < exact := by
  cases number with
  | integer value =>
      obtain ⟨rfl, _⟩ := h
      simp [exceeds, SqlNumber.value]
  | real value =>
      obtain ⟨hvalue, hexact⟩ := h
      simp only [exceeds, SqlNumber.value, decide_eq_true_eq, gt_iff_lt]
      omega

end SqlNumber
