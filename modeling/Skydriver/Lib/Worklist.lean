import Skydriver.Lib.Checked

/-!
# Worklist traversal of keyed items

A traversal pops one pending item, rejects a key it has met before and a key outside the known universe, and pushes
the children that `expand` derives from the item.  It ends because every iteration consumes a key of the universe.
The specification lemma says what a successful traversal has collected; the completeness lemma says that it succeeds
on every parent-linked tree.
-/

namespace Worklist

variable {ε κ α β : Type} [DecidableEq κ]

/-- The number of known keys that have not been met yet. -/
def remaining (keys visited : List κ) : Nat := keys.countP (· ∉ visited)

theorem remaining_lt {keys visited : List κ} {fresh : κ} (hnew : fresh ∉ visited) (hknown : fresh ∈ keys) :
    remaining keys (fresh :: visited) < remaining keys visited := by
  induction keys with
  | nil => simp at hknown
  | cons head tail ih =>
      have hmono : remaining tail (fresh :: visited) ≤ remaining tail visited :=
        List.countP_mono_left (by simp)
      simp only [remaining, List.countP_cons] at hmono ih ⊢
      by_cases hhead : fresh = head
      · subst hhead
        simp only [hnew, List.mem_cons, true_or, not_true_eq_false, decide_false, not_false_eq_true, decide_true,
          Bool.false_eq_true, if_false, if_true] at hmono ⊢
        omega
      · have htail := ih (by simpa [hhead] using hknown)
        have hsame : (head ∈ fresh :: visited) ↔ head ∈ visited := by simp [Ne.symm hhead]
        simp only [hsame]
        omega

section Traversal

variable (keys : List κ) (key : α → κ) (repeated missing : ε) (expand : α → Except ε (β × List α))

/-- Visit every pending item and everything expanded from it, collecting items and outputs in reverse order of
their visit. -/
def walk (pending : List α) (visited : List (α × β)) : Except ε (List (α × β)) :=
  match pending with
  | [] => .ok visited
  | item :: pending =>
      if _hnew : key item ∈ visited.map fun visit => key visit.1 then .error repeated
      else if _hknown : key item ∈ keys then
        match expand item with
        | .error error => .error error
        | .ok (output, children) => walk (children ++ pending) ((item, output) :: visited)
      else .error missing
termination_by remaining keys (visited.map fun visit => key visit.1)
decreasing_by exact remaining_lt _hnew _hknown

variable {keys key repeated missing expand}

/-- One visit of a traversal whose result is `result`: the item was expanded to the recorded output and each of its
children has been visited too. -/
def Expanded (expand : α → Except ε (β × List α)) (result : List (α × β)) (visit : α × β) : Prop :=
  ∃ children, expand visit.1 = .ok (visit.2, children) ∧ ∀ child ∈ children, ∃ output, (child, output) ∈ result

/-- Induction over the iterations of a successful traversal. -/
theorem walk_induction {motive : List α → List (α × β) → List (α × β) → Prop}
    (done : ∀ visited, motive [] visited visited)
    (step : ∀ item pending visited result output children,
      key item ∉ (visited.map fun visit => key visit.1) → key item ∈ keys → expand item = .ok (output, children) →
      motive (children ++ pending) ((item, output) :: visited) result → motive (item :: pending) visited result)
    {pending : List α} {visited result : List (α × β)}
    (h : walk keys key repeated missing expand pending visited = .ok result) : motive pending visited result := by
  fun_induction walk keys key repeated missing expand pending visited with
  | case1 visited =>
      cases h
      exact done _
  | case2 visited item pending hrepeated => cases h
  | case3 visited item pending hnew hknown error hexpand => cases h
  | case4 visited item pending hnew hknown output children hexpand ih =>
      exact step item pending visited result output children hnew hknown hexpand (ih h)
  | case5 visited item pending hnew hmissing => cases h

/-- Keys are met at most once. -/
theorem walk_nodup {pending : List α} {visited result : List (α × β)}
    (h : walk keys key repeated missing expand pending visited = .ok result)
    (hvisited : (visited.map fun visit => key visit.1).Nodup) : (result.map fun visit => key visit.1).Nodup := by
  refine walk_induction
    (motive := fun _ visited result => (visited.map fun visit => key visit.1).Nodup →
      (result.map fun visit => key visit.1).Nodup) ?_ ?_ h hvisited
  · exact fun visited hnodup => hnodup
  · intro item pending visited result output children hnew _ _ ih hnodup
    exact ih (by simpa using ⟨by simpa using hnew, hnodup⟩)

/-- Every key met is known. -/
theorem walk_known {pending : List α} {visited result : List (α × β)}
    (h : walk keys key repeated missing expand pending visited = .ok result)
    (hvisited : ∀ visit ∈ visited, key visit.1 ∈ keys) : ∀ visit ∈ result, key visit.1 ∈ keys := by
  refine walk_induction
    (motive := fun _ visited result => (∀ visit ∈ visited, key visit.1 ∈ keys) →
      ∀ visit ∈ result, key visit.1 ∈ keys) ?_ ?_ h hvisited
  · exact fun visited hknown => hknown
  · intro item pending visited result output children _ hknown _ ih hall
    exact ih (List.forall_mem_cons.mpr ⟨hknown, hall⟩)

/-- A successful traversal visits every pending item, forgets none it had visited, and expands every new visit. -/
theorem walk_collects {pending : List α} {visited result : List (α × β)}
    (h : walk keys key repeated missing expand pending visited = .ok result) :
    (∀ item ∈ pending, ∃ output, (item, output) ∈ result) ∧ (∀ visit ∈ visited, visit ∈ result) ∧
      ∀ visit ∈ result, visit ∈ visited ∨ Expanded expand result visit := by
  refine walk_induction
    (motive := fun pending visited result =>
      (∀ item ∈ pending, ∃ output, (item, output) ∈ result) ∧ (∀ visit ∈ visited, visit ∈ result) ∧
        ∀ visit ∈ result, visit ∈ visited ∨ Expanded expand result visit) ?_ ?_ h
  · exact fun visited => ⟨by simp, fun visit hvisit => hvisit, fun visit hvisit => .inl hvisit⟩
  · rintro item pending visited result output children _ _ hexpand ⟨hpending, hvisited, hexpanded⟩
    rw [List.forall_mem_cons] at hvisited
    have hself : Expanded expand result (item, output) :=
      ⟨children, hexpand, fun child hchild => hpending child (List.mem_append_left _ hchild)⟩
    refine ⟨List.forall_mem_cons.mpr ⟨⟨output, hvisited.1⟩, fun other hother => ?_⟩, hvisited.2, ?_⟩
    · exact hpending other (List.mem_append_right _ hother)
    · intro visit hvisit
      rcases hexpanded visit hvisit with hmember | hdone
      · rcases List.mem_cons.mp hmember with rfl | hmember
        · exact .inr hself
        · exact .inl hmember
      · exact .inr hdone

/-- A property of the first items that expansion preserves holds of every visited item. -/
theorem walk_invariant (Holds : α → Prop)
    (hchildren : ∀ item output children, Holds item → expand item = .ok (output, children) →
      ∀ child ∈ children, Holds child)
    {pending : List α} {visited result : List (α × β)}
    (h : walk keys key repeated missing expand pending visited = .ok result)
    (hpending : ∀ item ∈ pending, Holds item) (hvisited : ∀ visit ∈ visited, Holds visit.1) :
    ∀ visit ∈ result, Holds visit.1 := by
  refine walk_induction
    (motive := fun pending visited result => (∀ item ∈ pending, Holds item) → (∀ visit ∈ visited, Holds visit.1) →
      ∀ visit ∈ result, Holds visit.1) ?_ ?_ h hpending hvisited
  · exact fun visited _ hvisited => hvisited
  · intro item pending visited result output children _ _ hexpand ih hpending hvisited
    rw [List.forall_mem_cons] at hpending
    refine ih ?_ (List.forall_mem_cons.mpr ⟨hpending.1, hvisited⟩)
    intro other hother
    rcases List.mem_append.mp hother with hchild | hrest
    · exact hchildren item output children hpending.1 hexpand other hchild
    · exact hpending.2 other hrest

/-! ### Completeness on parent-linked trees

Each key has at most one parent key, children are recorded under their parent, and siblings have distinct keys.  Then
a key can only be pushed while its parent is being visited, so no key is ever met twice. -/

/-- What a tree guarantees about one item: its key is known, it expands, and its children are distinct, lie in the
tree, and name the item as their parent. -/
def TreeItem (keys : List κ) (key : α → κ) (expand : α → Except ε (β × List α)) (parentOf : κ → Option κ)
    (Holds : α → Prop) (item : α) : Prop :=
  key item ∈ keys ∧ ∃ output children, expand item = .ok (output, children) ∧ (children.map key).Nodup ∧
    ∀ child ∈ children, Holds child ∧ parentOf (key child) = some (key item)

private theorem walk_complete_aux {parentOf : κ → Option κ} {Holds : α → Prop}
    (htree : ∀ item, Holds item → TreeItem keys key expand parentOf Holds item)
    (pending : List α) (visited : List (α × β)) (hpending : ∀ item ∈ pending, Holds item)
    (hnodup : (pending.map key ++ visited.map fun visit => key visit.1).Nodup)
    (hparent : ∀ met ∈ pending.map key ++ visited.map (fun visit => key visit.1),
      ∀ parent, parentOf met = some parent → parent ∈ visited.map fun visit => key visit.1) :
    ∃ result, walk keys key repeated missing expand pending visited = .ok result := by
  fun_induction walk keys key repeated missing expand pending visited with
  | case1 visited => exact ⟨visited, rfl⟩
  | case2 visited item pending hrepeated =>
      simp only [List.map_cons, List.cons_append, List.nodup_cons, List.mem_append, not_or] at hnodup
      exact absurd hrepeated hnodup.1.2
  | case3 visited item pending hnew hknown error hexpand =>
      obtain ⟨_, output, children, hok, _⟩ := htree item (hpending item List.mem_cons_self)
      rw [hexpand] at hok
      cases hok
  | case4 visited item pending hnew hknown output children hexpand ih =>
      obtain ⟨_, output', children', hok, hdistinct, hchildren⟩ := htree item (hpending item List.mem_cons_self)
      rw [hexpand] at hok
      cases hok
      -- no child has been met: whatever has been met hangs below a key visited before the item
      have hfresh : ∀ child ∈ children,
          key child ∉ (item :: pending).map key ++ visited.map fun visit => key visit.1 := by
        intro child hchild hmet
        exact hnew (hparent _ hmet _ (hchildren child hchild).2)
      refine ih ?_ ?_ ?_
      · intro other hother
        rcases List.mem_append.mp hother with hchild | hrest
        · exact (hchildren other hchild).1
        · exact hpending other (List.mem_cons_of_mem _ hrest)
      · have hreordered : (children.map key ++ ((item :: pending).map key ++
            visited.map fun visit => key visit.1)).Nodup := by
          refine List.nodup_append.mpr ⟨hdistinct, hnodup, ?_⟩
          rintro met hmet other hother rfl
          obtain ⟨child, hchild, rfl⟩ := List.mem_map.mp hmet
          exact hfresh child hchild hother
        refine hreordered.perm ?_
        simp only [List.map_cons, List.map_append, List.append_assoc, List.cons_append]
        exact (List.perm_middle.symm).append_left _
      · intro met hmet parent hparentOf
        rw [List.map_append, List.append_assoc, List.mem_append] at hmet
        rcases hmet with hchild | hmet
        · obtain ⟨child, hmember, rfl⟩ := List.mem_map.mp hchild
          rw [(hchildren child hmember).2] at hparentOf
          cases hparentOf
          exact List.mem_cons_self
        · refine List.mem_cons_of_mem _ (hparent met ?_ parent hparentOf)
          simp only [List.map_cons, List.mem_append, List.mem_cons] at hmet ⊢
          tauto
  | case5 visited item pending hnew hmissing =>
      exact absurd (htree item (hpending item List.mem_cons_self)).1 hmissing

/-- A traversal from the root of a parent-linked tree succeeds. -/
theorem walk_complete (parentOf : κ → Option κ) (Holds : α → Prop)
    (htree : ∀ item, Holds item → TreeItem keys key expand parentOf Holds item)
    {root : α} (hroot : Holds root) (horphan : parentOf (key root) = none) :
    ∃ result, walk keys key repeated missing expand [root] [] = .ok result := by
  refine walk_complete_aux htree [root] [] (by simpa using hroot) (by simp) ?_
  intro met hmet parent hparent
  simp only [List.map_cons, List.map_nil, List.append_nil, List.mem_singleton] at hmet
  rw [hmet, horphan] at hparent
  cases hparent

end Traversal

end Worklist
