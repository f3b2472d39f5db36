import Mathlib

/-!
# Checked computations

A fallible routine is a sequence of guards followed by a result.  `ensure` is one guard: it fails with the supplied
error unless its condition holds.  The lemmas below read a successful run of such a sequence back as the
conjunction of its guards, which is how every acceptance theorem of the development is proved.
-/

variable {ε α β : Type}

/-- Continue when the condition holds; otherwise fail with `error`. -/
def ensure (error : ε) (condition : Bool) : Except ε Unit :=
  if condition then .ok () else .error error

/-- Read an optional value, failing with `error` when it is absent. -/
def Option.orFail (value : Option α) (error : ε) : Except ε α :=
  match value with
  | some found => .ok found
  | none => .error error

namespace Checked

@[simp] theorem pure_eq_ok (value : α) : (pure value : Except ε α) = .ok value := rfl

@[simp] theorem ok_bind (value : α) (next : α → Except ε β) :
    ((.ok value : Except ε α) >>= next) = next value := rfl

@[simp] theorem error_bind (error : ε) (next : α → Except ε β) :
    ((.error error : Except ε α) >>= next) = .error error := rfl

@[simp] theorem ensure_true (error : ε) : ensure error true = .ok () := rfl

@[simp] theorem ensure_eq_ok {error : ε} {condition : Bool} {done : Unit} :
    ensure error condition = .ok done ↔ condition = true := by
  cases condition <;> simp [ensure]

@[simp] theorem some_orFail (value : α) (error : ε) : (some value).orFail error = .ok value := rfl

@[simp] theorem orFail_eq_ok {value : Option α} {error : ε} {found : α} :
    value.orFail error = .ok found ↔ value = some found := by
  cases value <;> simp [Option.orFail]

/-- Wrapping an error does not change when a computation succeeds. -/
@[simp] theorem mapError_eq_ok {ε' : Type} {computation : Except ε α} {wrap : ε → ε'} {value : α} :
    computation.mapError wrap = .ok value ↔ computation = .ok value := by
  cases computation <;> simp [Except.mapError]

/-- A sequence returns exactly when its first part does and the rest returns from that value. -/
theorem bind_eq_ok {first : Except ε α} {next : α → Except ε β} {result : β} :
    (first >>= next) = .ok result ↔ ∃ value, first = .ok value ∧ next value = .ok result := by
  cases first with
  | error error => simp
  | ok value => simp

/-- A guard in front of a computation contributes its condition and nothing else. -/
@[simp] theorem ensure_bind_eq_ok {error : ε} {condition : Bool} {next : Unit → Except ε β} {result : β} :
    (ensure error condition >>= next) = .ok result ↔ condition = true ∧ next () = .ok result := by
  cases condition <;> simp [ensure]

/-- A guarded computation fails at its guard or behind it. -/
theorem ensure_bind_eq_error {error found : ε} {condition : Bool} {next : Unit → Except ε β} :
    (ensure error condition >>= next) = .error found ↔
      (condition = false ∧ error = found) ∨ (condition = true ∧ next () = .error found) := by
  cases condition <;> simp [ensure]

/-- A check of every element of a list, stopping at the first failure. -/
def forAll (check : α → Except ε Unit) : List α → Except ε Unit
  | [] => .ok ()
  | head :: tail => do
      check head
      forAll check tail

/-- Converting every element of a list, stopping at the first failure. -/
def traverse (convert : α → Except ε β) : List α → Except ε (List β)
  | [] => .ok []
  | head :: tail => do
      let value ← convert head
      let values ← traverse convert tail
      .ok (value :: values)

theorem traverse_eq_ok {convert : α → Except ε β} {inputs : List α} {outputs : List β} :
    traverse convert inputs = .ok outputs ↔
      List.Forall₂ (fun input output => convert input = .ok output) inputs outputs := by
  induction inputs generalizing outputs with
  | nil => simp [traverse, List.forall₂_nil_left_iff, eq_comm]
  | cons head tail ih =>
      simp only [traverse, bind_eq_ok]
      constructor
      · rintro ⟨value, hvalue, values, hvalues, hresult⟩
        cases hresult
        exact .cons hvalue (ih.mp hvalues)
      · intro hall
        cases hall with
        | cons hvalue hvalues => exact ⟨_, hvalue, _, ih.mpr hvalues, rfl⟩

/-- Every element has been converted. -/
theorem exists_of_traverse_eq_ok {convert : α → Except ε β} {inputs : List α} {outputs : List β}
    (h : traverse convert inputs = .ok outputs) {input : α} (hinput : input ∈ inputs) :
    ∃ output ∈ outputs, convert input = .ok output := by
  induction traverse_eq_ok.mp h with
  | nil => cases hinput
  | cons hhead htail ih =>
      rcases List.mem_cons.mp hinput with rfl | hinput
      · exact ⟨_, List.mem_cons_self, hhead⟩
      · obtain ⟨output, houtput, hok⟩ := ih (traverse_eq_ok.mpr htail) hinput
        exact ⟨output, List.mem_cons_of_mem _ houtput, hok⟩

end Checked
