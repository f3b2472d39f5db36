import Mathlib

/-!
# Advisory file locks

The kernel keeps one entry for every lock that is held through an open file.  A shared lock is granted unless the file is
locked exclusively, an exclusive lock only where the file is not locked at all, and a lock ends with its open file.
-/

namespace AdvisoryLock

inductive Mode where
  | shared
  | exclusive
deriving DecidableEq

/-- A lock of `owner` on the file `target`. -/
structure Hold (ω κ : Type) where
  owner : ω
  target : κ
  mode : Mode
deriving DecidableEq

variable {ω κ : Type}

/-- Two open files may hold these locks at one time. -/
def Compatible (left right : Hold ω κ) : Prop :=
  left.target = right.target → left.mode = .shared ∧ right.mode = .shared

instance [DecidableEq κ] (left right : Hold ω κ) : Decidable (Compatible left right) :=
  inferInstanceAs (Decidable (_ → _))

/-- The table after a lock was requested without waiting, or none if the request would have to wait. -/
def tryLock [DecidableEq κ] (table : List (Hold ω κ)) (hold : Hold ω κ) : Option (List (Hold ω κ)) :=
  if ∀ other ∈ table, Compatible hold other then some (hold :: table) else none

/-- All locks of the table may be held at one time. -/
def Sound (table : List (Hold ω κ)) : Prop := table.Pairwise Compatible

instance : Std.Symm (Compatible : Hold ω κ → Hold ω κ → Prop) := ⟨fun _ _ h hsame => (h hsame.symm).symm⟩

theorem sound_nil : Sound ([] : List (Hold ω κ)) := .nil

/-- A granted lock fits into the table. -/
theorem Sound.tryLock [DecidableEq κ] {table after : List (Hold ω κ)} {hold : Hold ω κ} (h : Sound table)
    (hgranted : tryLock table hold = some after) : after = hold :: table ∧ Sound after := by
  unfold AdvisoryLock.tryLock at hgranted
  split at hgranted
  · next hcompatible =>
      cases hgranted
      exact ⟨rfl, List.pairwise_cons.mpr ⟨hcompatible, h⟩⟩
  · cases hgranted

/-- Closing files keeps the table sound. -/
theorem Sound.sublist {table after : List (Hold ω κ)} (h : Sound table) (hsublist : after.Sublist table) :
    Sound after :=
  List.Pairwise.sublist hsublist h

/-- A file that is locked exclusively carries no other lock. -/
theorem Sound.exclusive {table : List (Hold ω κ)} (h : Sound table) {left right : Hold ω κ} (hleft : left ∈ table)
    (hright : right ∈ table) (htarget : left.target = right.target) (hmode : left.mode = .exclusive) :
    left = right := by
  by_contra hne
  have hshared := (List.Pairwise.forall h hleft hright hne htarget).1
  rw [hmode] at hshared
  cases hshared

end AdvisoryLock
