import Skydriver.Control.Edits

/-!
# The namespace as its edits make it

What the namespace is for: one edit after the other, each followed by new roots for every directory.  An edit looks at
nothing but the rows, so that trees with the same rows stay so under the same edits.
-/

namespace Skydriver

namespace Tree

/-! ### Roots of trees with the same rows -/

section Congruence

variable {left right : Tree}

theorem SameRows.merkleRoot (h : left.SameRows right) (prims : Primitives) (levels : Nat) (id : Identity) :
    left.merkleRoot prims levels id = right.merkleRoot prims levels id := by
  induction levels generalizing id with
  | zero => rfl
  | succ levels ih =>
      have hchild : left.merkleRoot prims levels = right.merkleRoot prims levels := funext ih
      rw [Tree.merkleRoot, Tree.merkleRoot, h.listing, hchild]

theorem SameRows.recomputedRoot (h : left.SameRows right) (prims : Primitives) (id : Identity) :
    left.recomputedRoot prims id = right.recomputedRoot prims id := by
  rw [Tree.recomputedRoot, Tree.recomputedRoot, Table.length_eq_of_lookup h.directories, h.merkleRoot]

theorem SameRows.recomputed (h : left.SameRows right) (prims : Primitives) :
    (left.recomputed prims).SameRows (right.recomputed prims) where
  directories := by
    intro id
    rw [Tree.recomputed, Tree.recomputed, Table.lookup_mapRows, Table.lookup_mapRows, h.directories,
      h.recomputedRoot]
  entries := by
    intro key
    rw [Tree.recomputed, Tree.recomputed, Table.lookup_mapRows, Table.lookup_mapRows, h.entries]
    congr 1
    funext row
    obtain ⟨content, revision⟩ := row
    cases content with
    | file _ _ _ _ _ => rfl
    | directory child _ =>
        dsimp only
        rw [h.recomputedRoot]

end Congruence

end Tree

/-! ### Edits -/

/-- What one batch does to the namespace, its new roots apart. -/
inductive NamespaceEdit where
  | put (intent : PutIntentRow)
  | mkdir (batch : MkdirBatch)
  | remove (batch : RemoveBatch)
  | rename (target : RenameTarget) (entry : EntryRow)

namespace NamespaceEdit

/-- The rows that an edit changes. -/
def edited : NamespaceEdit → Tree → Tree
  | .put intent, tree => putEdited intent tree
  | .mkdir batch, tree => mkdirEdited batch tree
  | .remove batch, tree => removeEdited batch tree
  | .rename target entry, tree => tree.moveEntry target entry

/-- An edit, with every root computed anew. -/
def apply (prims : Primitives) (tree : Tree) (edit : NamespaceEdit) : Tree := (edit.edited tree).recomputed prims

def ofMutation (db : Database) : Mutation → Option NamespaceEdit
  | .putCommit batch => (db.journal.putIntents.lookup batch.intentId).map .put
  | .mkdir batch => some (.mkdir batch)
  | .remove batch => some (.remove batch)
  | .rename batch => some (.rename batch.target batch.entry)
  | _ => none

section Congruence

variable {left right : Tree}

theorem edited_sameRows (h : left.SameRows right) (edit : NamespaceEdit) :
    (edit.edited left).SameRows (edit.edited right) := by
  cases edit with
  | put intent =>
      refine ⟨h.directories, fun key => ?_⟩
      simp only [edited, putEdited, Table.lookup_insert_eq, h.entries]
  | mkdir batch =>
      constructor
      · intro id
        simp only [edited, mkdirEdited, Table.lookup_insert_eq, h.directories]
      · intro key
        simp only [edited, mkdirEdited, Table.lookup_insert_eq, h.entries]
  | remove batch =>
      constructor
      · intro id
        cases hcontent : batch.entry.content with
        | file _ _ _ _ _ => simp only [edited, removeEdited, hcontent, removedDirectories, h.directories]
        | directory child _ =>
            simp only [edited, removeEdited, hcontent, removedDirectories, Table.lookup_modify, h.directories]
      · intro key
        simp only [edited, removeEdited, Table.lookup_erase_eq, h.entries]
  | rename target entry =>
      constructor
      · intro id
        cases hcontent : entry.content with
        | file _ _ _ _ _ => simp only [edited, Tree.moveEntry, hcontent, h.directories]
        | directory child _ => simp only [edited, Tree.moveEntry, hcontent, Table.lookup_modify, h.directories]
      · intro key
        simp only [edited, Tree.moveEntry_entries, h.entries]

theorem apply_sameRows (h : left.SameRows right) (prims : Primitives) (edit : NamespaceEdit) :
    (edit.apply prims left).SameRows (edit.apply prims right) :=
  (edited_sameRows h edit).recomputed prims

end Congruence

end NamespaceEdit

/-- The edits that led to a moment, in the order in which they committed. -/
def namespaceEdits (now : Moment Database Mutation) : List NamespaceEdit :=
  now.trace.filterMap fun step => step.1.bind (NamespaceEdit.ofMutation step.2)

/-- The namespace after one edit after the other. -/
def replayEdits (prims : Primitives) (start : Tree) (now : Moment Database Mutation) : Tree :=
  (namespaceEdits now).foldl (NamespaceEdit.apply prims) start

theorem replayEdits_advance (prims : Primitives) (start : Tree) (now : Moment Database Mutation) (cause : Option Mutation)
    (after : Database) : replayEdits prims start (now.advance cause after) =
      ((cause.bind (NamespaceEdit.ofMutation now.state)).elim (replayEdits prims start now)
        (NamespaceEdit.apply prims (replayEdits prims start now))) := by
  rw [replayEdits, namespaceEdits, Moment.advance, List.filterMap_append, List.foldl_append]
  cases hedit : cause.bind (NamespaceEdit.ofMutation now.state) with
  | none =>
      simp only [List.filterMap_cons, hedit, List.filterMap_nil]
      rfl
  | some edit =>
      simp only [List.filterMap_cons, hedit, List.filterMap_nil]
      rfl

end Skydriver
