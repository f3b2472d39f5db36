import Skydriver.Lib.Paging

/-!
# Traversals that are cut into runs

A traversal keeps its pending frames on a stack, the top at the end.  It expands the top frame into entries and further
frames, and a run of it ends after a number of expansions, or earlier when it has found enough.  What is left on the stack
is the cursor of the next run.  A stack leads to a list of entries when expanding all that is on it ends and finds them, in
this order; then the runs find them as well, wherever they are cut.
-/

namespace Traversal

variable {φ β ε : Type} (expand : φ → Except ε (List φ × List β))

/-- At most `expansions` steps, until there are `enough` entries. -/
def run (enough : Nat) : Nat → List φ → List β → Except ε (List φ × List β)
  | 0, stack, found => .ok (stack, found)
  | expansions + 1, stack, found =>
      match stack.getLast? with
      | none => .ok (stack, found)
      | some frame => do
          let (pushed, entries) ← expand frame
          if enough ≤ (found ++ entries).length then .ok (stack.dropLast ++ pushed, found ++ entries)
          else run enough expansions (stack.dropLast ++ pushed) (found ++ entries)

/-- Expanding a stack ends after a number of steps and finds these entries. -/
inductive Explored : Nat → List φ → List β → Prop where
  | done : Explored 0 [] []
  | step {count : Nat} {stack pushed : List φ} {frame : φ} {entries rest : List β}
      (hexpand : expand frame = .ok (pushed, entries)) (hrest : Explored count (stack ++ pushed) rest) :
      Explored (count + 1) (stack ++ [frame]) (entries ++ rest)

/-- A frame on top of a stack leads to these entries, and then to what the stack leads to. -/
def Leads (frame : φ) (entries : List β) : Prop :=
  ∀ ⦃count stack rest⦄, Explored expand count stack rest →
    ∃ count, Explored expand count (stack ++ [frame]) (entries ++ rest)

variable {expand}

/-- Frames that are pushed together lead to their entries from the last one on. -/
theorem leads_pushed {pushed : List φ} {found : List (List β)} (h : List.Forall₂ (Leads expand) pushed found) {count : Nat}
    {stack : List φ} {rest : List β} (hrest : Explored expand count stack rest) :
    ∃ count, Explored expand count (stack ++ pushed) (found.reverse.flatten ++ rest) := by
  induction h generalizing count stack rest with
  | nil => exact ⟨count, by simpa using hrest⟩
  | @cons frame entries pushed found hframe _ ih =>
      obtain ⟨_, hfirst⟩ := hframe hrest
      obtain ⟨count, hall⟩ := ih hfirst
      refine ⟨count, ?_⟩
      simpa [List.append_assoc] using hall

/-- A frame leads to the entries of its expansion, and then to those of the frames that were pushed. -/
theorem leads_of_expand {frame : φ} {pushed : List φ} {entries : List β} {found : List (List β)}
    (hexpand : expand frame = .ok (pushed, entries)) (h : List.Forall₂ (Leads expand) pushed found) :
    Leads expand frame (entries ++ found.reverse.flatten) := by
  intro count stack rest hrest
  obtain ⟨count, hpushed⟩ := leads_pushed h hrest
  exact ⟨count + 1, by simpa only [List.append_assoc] using Explored.step hexpand hpushed⟩

/-- A run finds the first entries and leaves a stack that leads to the others. -/
theorem run_explored {enough expansions count : Nat} {stack : List φ} {entries : List β}
    (h : Explored expand count stack entries) (before : List β) :
    ∃ left found count' rest, run expand enough expansions stack before = .ok (left, before ++ found) ∧
      Explored expand count' left rest ∧ entries = found ++ rest ∧ count' ≤ count ∧
      (0 < expansions → stack ≠ [] → count' < count) := by
  induction expansions generalizing count stack entries before with
  | zero => exact ⟨stack, [], count, entries, by rw [run, List.append_nil], h, rfl, le_rfl, fun hpos => absurd hpos (by simp)⟩
  | succ expansions ih =>
      cases h with
      | done => exact ⟨[], [], 0, [], by rw [List.append_nil]; rfl, .done, rfl, le_rfl, fun _ hne => absurd rfl hne⟩
      | @step count stack pushed frame entries rest hexpand hrest =>
          obtain ⟨left, found, count', others, hrun, hleft, hsplit, hle, _⟩ := ih hrest (before ++ entries)
          rw [run, List.getLast?_concat]
          dsimp only
          rw [hexpand, List.dropLast_concat]
          simp only [bind, Except.bind]
          split_ifs with henough
          · exact ⟨stack ++ pushed, entries, count, rest, rfl, hrest, rfl, Nat.le_succ _, fun _ _ => Nat.lt_succ_self _⟩
          · refine ⟨left, entries ++ found, count', others, ?_, hleft, ?_, Nat.le_succ_of_le hle, fun _ _ => Nat.lt_succ_of_le hle⟩
            · rw [hrun, List.append_assoc]
            · rw [hsplit, List.append_assoc]

/-- Cursors that stand for the stacks which the runs leave lead to all entries. -/
theorem followed_of_explored {γ : Type} {page : Nat → Option γ → Except ε (List β × Option γ)} {enough expansions : Nat}
    {stands : Option γ → List φ → Prop} (hpositive : 0 < expansions)
    (hpage : ∀ number cursor stack left found, stands cursor stack →
      run expand enough expansions stack [] = .ok (left, found) →
      (left = [] ∧ page number cursor = .ok (found, none)) ∨
        (left ≠ [] ∧ ∃ next, page number cursor = .ok (found, some next) ∧ stands (some next) left))
    {count : Nat} {stack : List φ} {entries : List β} (h : Explored expand count stack entries) (hstack : stack ≠ [])
    {cursor : Option γ} (hcursor : stands cursor stack) (number : Nat) : Paging.Followed page number cursor entries := by
  induction count using Nat.strong_induction_on generalizing stack entries cursor number with
  | _ count ih =>
      obtain ⟨left, found, count', rest, hrun, hleft, rfl, _, hless⟩ := @run_explored φ β ε expand enough expansions count stack entries h []
      rw [List.nil_append] at hrun
      rcases hpage number cursor stack left found hcursor hrun with ⟨rfl, hlast⟩ | ⟨hne, next, hmore, hnext⟩
      · have hdone : rest = [] := by
          generalize hempty : ([] : List φ) = empty at hleft
          cases hleft with
          | done => rfl
          | step => simp at hempty
        rw [hdone, List.append_nil]
        exact .last hlast
      · exact .more hmore (ih count' (hless hpositive hstack) hleft hne hnext (number + 1))

end Traversal
