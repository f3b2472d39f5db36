import Skydriver.Control.Recomputed

/-!
# Rewriting the roots of an edited tree

The batches of the namespace end alike: over a tree whose entries they have just edited, they write new directory roots
and carry them into the entries above.  Where each new root is the root of the edited listing, the result is the edited
tree with every root computed anew, and rows, entries and roots agree again.
-/

namespace Skydriver

/-- A consistent namespace whose entries all stand in active directories; a directory that is gone keeps the root of an
empty one. -/
structure Tree.Settled (prims : Primitives) (tree : Tree) : Prop extends tree.Consistent prims where
  housed : ∀ {directoryId name row}, tree.entries.lookup (directoryId, name) = some row →
    ∃ directory, tree.directories.lookup directoryId = some directory ∧ directory.state = .active
  emptied : ∀ {id row}, tree.directories.lookup id = some row → row.state ≠ .active →
    directoryMerkleRoot prims [] = .ok row.dataRoot

namespace Tree

theorem listing_eq_nil {tree : Tree} {id : Identity} (h : ∀ name row, tree.entries.lookup (id, name) ≠ some row) :
    tree.listing id = [] := by
  rw [List.eq_nil_iff_forall_not_mem]
  intro entry hentry
  obtain ⟨name, row, hrow, _⟩ := mem_listing.mp hentry
  exact h name row hrow

/-- The root of every directory, also of one that is gone, is the root of its listing. -/
theorem Settled.root {prims : Primitives} {tree : Tree} (h : tree.Settled prims) {id : Identity} {row : DirectoryRow}
    (hrow : tree.directories.lookup id = some row) : directoryMerkleRoot prims (tree.listing id) = .ok row.dataRoot := by
  by_cases hactive : row.state = .active
  · exact h.roots hrow hactive
  · rw [listing_eq_nil, h.emptied hrow hactive]
    intro name found hfound
    obtain ⟨directory, hdirectory, hstate⟩ := h.housed hfound
    rw [hrow] at hdirectory
    cases hdirectory
    exact hactive hstate

theorem storedEntries_strictlyOrdered (tree : Tree) (id : Identity) :
    KeyOrder.StrictlyOrdered (fun stored : StoredEntry => entryName stored.entry) (tree.storedEntries id) := by
  have hnames := tree.nodup_storedEntries id
  rw [storedEntries, ((KeyOrder.sortByKey_perm _ _).map _).nodup_iff] at hnames
  exact KeyOrder.sortByKey_strictlyOrdered hnames

theorem storedEntries_congr {left right : Tree} {id : Identity}
    (h : ∀ name, left.entries.lookup (id, name) = right.entries.lookup (id, name)) :
    left.storedEntries id = right.storedEntries id := by
  apply (left.storedEntries_strictlyOrdered id).eq_of_perm (right.storedEntries_strictlyOrdered id)
  have hnodup := (left.nodup_storedEntries id).of_map
  have hnodup' := (right.nodup_storedEntries id).of_map
  refine (List.perm_ext_iff_of_nodup hnodup hnodup').mpr fun stored => ?_
  simp only [mem_storedEntries, h]

namespace SameRows

variable {left right : Tree}

theorem symm (h : left.SameRows right) : right.SameRows left :=
  ⟨fun id => (h.directories id).symm, fun key => (h.entries key).symm⟩

theorem trans {last : Tree} (h : left.SameRows right) (h' : right.SameRows last) : left.SameRows last :=
  ⟨fun id => (h.directories id).trans (h'.directories id), fun key => (h.entries key).trans (h'.entries key)⟩

theorem storedEntries (h : left.SameRows right) (id : Identity) : left.storedEntries id = right.storedEntries id :=
  storedEntries_congr fun _ => h.entries _

theorem listing (h : left.SameRows right) (id : Identity) : left.listing id = right.listing id := by
  rw [Tree.listing, Tree.listing, h.storedEntries]

theorem shapeAt (h : left.SameRows right) (id : Identity) : left.shapeAt id = right.shapeAt id := by
  rw [Tree.shapeAt, Tree.shapeAt, h.directories]

theorem settled {prims : Primitives} (h : left.SameRows right) (hright : right.Settled prims) : left.Settled prims where
  rooted := by
    refine hright.rooted.of_parents ?_ ?_
    · intro id row hrow
      exact ⟨row, (h.shapeAt id).trans hrow, rfl, rfl⟩
    · intro id row hrow
      exact ⟨row, (h.shapeAt id).symm.trans hrow, rfl, rfl⟩
  linked := by
    constructor
    · intro directoryId name child dataRoot revision hrow
      rw [h.entries] at hrow
      rw [h.shapeAt]
      exact hright.linked.child hrow
    · intro id row parentId hrow hactive hparent
      rw [h.shapeAt] at hrow
      simp only [h.entries]
      exact hright.linked.entry hrow hactive hparent
  childRoot := by
    intro key child dataRoot revision row hentry hrow
    rw [h.entries] at hentry
    rw [h.directories] at hrow
    exact hright.childRoot hentry hrow
  roots := by
    intro id row hrow hactive
    rw [h.directories] at hrow
    rw [h.listing]
    exact hright.roots hrow hactive
  housed := by
    intro directoryId name row hrow
    rw [h.entries] at hrow
    simp only [h.directories]
    exact hright.housed hrow
  emptied := by
    intro id row hrow hgone
    rw [h.directories] at hrow
    exact hright.emptied hrow hgone

end SameRows

def rootAfter (tree : Tree) (updates : List DirectoryUpdate) (id : Identity) : Digest :=
  (newRootOf updates id).getD ((tree.directories.lookup id).elim (.zero 32) DirectoryRow.dataRoot)

end Tree

theorem newRootOf_eq_some {updates : List DirectoryUpdate} (hnodup : (updates.map DirectoryUpdate.directoryId).Nodup)
    {id : Identity} {root : Digest} : newRootOf updates id = some root ↔
      ∃ update ∈ updates, update.directoryId = id ∧ update.newRoot = root := by
  rw [newRootOf, Option.map_eq_some_iff]
  constructor
  · intro h
    obtain ⟨update, hfind, hroot⟩ := h
    have hid := List.find?_some hfind
    exact ⟨update, List.mem_of_find?_eq_some hfind, beq_iff_eq.mp hid, hroot⟩
  · intro h
    obtain ⟨update, hmem, rfl, rfl⟩ := h
    refine ⟨update, ?_, rfl⟩
    cases hfind : updates.find? fun other => other.directoryId == update.directoryId with
    | none =>
        rw [List.find?_eq_none] at hfind
        exact absurd (beq_self_eq_true _) (hfind update hmem)
    | some other =>
        have hid := List.find?_some hfind
        rw [beq_iff_eq] at hid
        rw [List.inj_on_of_nodup_map hnodup (List.mem_of_find?_eq_some hfind) hmem hid]

theorem newRootOf_eq_none {updates : List DirectoryUpdate} {id : Identity} :
    newRootOf updates id = none ↔ id ∉ updates.map DirectoryUpdate.directoryId := by
  rw [newRootOf, Option.map_eq_none_iff, List.find?_eq_none, List.mem_map, not_exists]
  constructor
  · intro h update hupdate
    exact h update hupdate.1 (beq_iff_eq.mpr hupdate.2)
  · intro h update hmem hid
    exact h update ⟨hmem, beq_iff_eq.mp hid⟩

/-- The root directory of one filesystem has a root, and those of the others are as they were. -/
structure Tree.Rerooted (filesystemId : Identity) (root : Digest) (tree after : Tree) : Prop where
  top : ∀ {id row}, after.directories.lookup id = some row → row.parentId = none → row.filesystemId = filesystemId →
    row.dataRoot = root
  others : ∀ {id row}, after.directories.lookup id = some row → row.parentId = none → row.filesystemId ≠ filesystemId →
    tree.directories.lookup id = some row

/-- Updates and links that belong to an edited tree: each update is current, each link carries the new root of its
child, and the new roots are the roots of the edited listings. -/
structure Rewriting (prims : Primitives) (edited : Tree) (updates : List DirectoryUpdate) (links : List LinkUpdate) :
    Prop where
  rooted : edited.Rooted
  linked : edited.Linked
  housed : ∀ {directoryId name row}, edited.entries.lookup (directoryId, name) = some row →
    ∃ directory, edited.directories.lookup directoryId = some directory ∧ directory.state = .active
  emptied : ∀ {id row}, edited.directories.lookup id = some row → row.state ≠ .active →
    directoryMerkleRoot prims [] = .ok row.dataRoot
  childRoot : ∀ {key child dataRoot revision row}, edited.entries.lookup key = some ⟨.directory child dataRoot, revision⟩ →
    edited.directories.lookup child = some row → row.dataRoot = dataRoot
  once : (updates.map DirectoryUpdate.directoryId).Nodup
  current : ∀ {update}, update ∈ updates → ∃ row, edited.directories.lookup update.directoryId = some row ∧
    row.state = .active ∧ row.revision = update.expectedRevision ∧ row.dataRoot = update.expectedRoot ∧
      update.newRoot ≠ row.dataRoot
  linkedOnce : (links.map fun link => (link.parentDirectoryId, link.name)).Nodup
  links : ∀ {link}, link ∈ links ↔
    (∃ dataRoot, edited.entries.lookup (link.parentDirectoryId, link.name) =
      some ⟨.directory link.childDirectoryId dataRoot, link.expectedRevision⟩) ∧
        newRootOf updates link.childDirectoryId = some link.newChildRoot
  roots : ∀ {id row}, edited.directories.lookup id = some row → row.state = .active →
    directoryMerkleRoot prims ((edited.listing id).map (Tree.relist (edited.rootAfter updates))) =
      .ok (edited.rootAfter updates id)

namespace Rewriting

variable {prims : Primitives} {edited : Tree} {updates : List DirectoryUpdate} {links : List LinkUpdate}

section Derived

variable (h : Rewriting prims edited updates links)
include h

theorem child {directoryId child : Identity} {name : Text} {dataRoot : Digest} {revision : Nat}
    (hentry : edited.entries.lookup (directoryId, name) = some ⟨.directory child dataRoot, revision⟩) :
    ∃ row, edited.directories.lookup child = some row ∧ row.parentId = some directoryId ∧ row.state = .active ∧
      row.dataRoot = dataRoot := by
  obtain ⟨shape, hshape, hparent, _, hactive⟩ := h.linked.child hentry
  obtain ⟨row, hrow, rfl⟩ := lookup_of_shapeAt hshape
  exact ⟨row, hrow, hparent, hactive, h.childRoot hentry hrow⟩

theorem recomputedRoot_eq {id : Identity} {row : DirectoryRow} (hrow : edited.directories.lookup id = some row)
    (hactive : row.state = .active) : edited.recomputedRoot prims id = some (edited.rootAfter updates id) := by
  obtain ⟨rows, hdepth⟩ := h.rooted.grounded (shapeAt_of_lookup hrow)
  have hpos : 0 < rows := Table.Chain.pos hdepth
  refine Tree.merkleRoot_eq ?_ h.roots hrow hactive hdepth (by omega)
  intro directoryId name child dataRoot revision hentry
  obtain ⟨below, hbelow, hparent, hlive, _⟩ := h.child hentry
  exact ⟨below, hbelow, hparent, hlive⟩

theorem rootAfter_of_update {update : DirectoryUpdate} (hmem : update ∈ updates) :
    edited.rootAfter updates update.directoryId = update.newRoot := by
  rw [Tree.rootAfter, (newRootOf_eq_some h.once).mpr ⟨update, hmem, rfl, rfl⟩, Option.getD_some]

omit h in
theorem rootAfter_of_not_mem {id : Identity} {row : DirectoryRow} (hrow : edited.directories.lookup id = some row)
    (hnot : id ∉ updates.map DirectoryUpdate.directoryId) : edited.rootAfter updates id = row.dataRoot := by
  rw [Tree.rootAfter, newRootOf_eq_none.mpr hnot, hrow, Option.getD_none, Option.elim_some]

/-! ### Rows and entries of the recomputed tree -/

theorem recomputed_row {id : Identity} {row : DirectoryRow} (hrow : edited.directories.lookup id = some row) :
    (edited.recomputed prims).directories.lookup id =
      some (if row.state = .active then Tree.withRoot row (edited.rootAfter updates id) else row) := by
  rw [Tree.recomputed, Table.lookup_mapRows, hrow, Option.map_some]
  split_ifs with hactive
  · rw [h.recomputedRoot_eq hrow hactive, Option.elim_some]
  · rfl

theorem recomputed_directory {directoryId child : Identity} {name : Text} {dataRoot : Digest} {revision : Nat}
    (hentry : edited.entries.lookup (directoryId, name) = some ⟨.directory child dataRoot, revision⟩) :
    (edited.recomputed prims).entries.lookup (directoryId, name) =
      some (Tree.withChildRoot (edited.rootAfter updates child) ⟨.directory child dataRoot, revision⟩) := by
  obtain ⟨row, hrow, _, hactive, _⟩ := h.child hentry
  rw [Tree.recomputed, Table.lookup_mapRows, hentry, Option.map_some]
  dsimp only
  rw [h.recomputedRoot_eq hrow hactive, Option.elim_some]

omit h in
theorem recomputed_file {key : Identity × Text} {row : EntryRow} {fileId versionId : Identity} {sizeBytes : UInt64}
    {dataRoot metadataRoot : Digest} (hentry : edited.entries.lookup key = some row)
    (hfile : row.content = .file fileId versionId sizeBytes dataRoot metadataRoot) :
    (edited.recomputed prims).entries.lookup key = some row := by
  rw [Tree.recomputed, Table.lookup_mapRows, hentry, Option.map_some, hfile]

theorem updated (id : Identity) :
    (updateRoots updates edited.directories).lookup id = (edited.recomputed prims).directories.lookup id := by
  by_cases hmem : id ∈ updates.map DirectoryUpdate.directoryId
  · obtain ⟨update, hupdate, rfl⟩ := List.mem_map.mp hmem
    obtain ⟨row, hrow, hactive, hrevision, hroot, hne⟩ := h.current hupdate
    rw [updateRoots_lookup h.once hupdate hrow hrevision hroot, h.recomputed_row hrow, if_pos hactive,
      h.rootAfter_of_update hupdate, Tree.withRoot, if_neg hne]
  · rw [updateRoots_lookup_of_not_mem hmem]
    cases hrow : edited.directories.lookup id with
    | none => rw [Tree.recomputed, Table.lookup_mapRows, hrow, Option.map_none]
    | some row =>
        rw [h.recomputed_row hrow]
        split_ifs with hactive
        · rw [rootAfter_of_not_mem hrow hmem, Tree.withRoot, if_pos rfl]
        · rfl

theorem relinked (key : Identity × Text) :
    (links.foldl relink edited.entries).lookup key = (edited.recomputed prims).entries.lookup key := by
  have happlies : ∀ link ∈ links, ∃ dataRoot, edited.entries.lookup (link.parentDirectoryId, link.name) =
      some ⟨.directory link.childDirectoryId dataRoot, link.expectedRevision⟩ := fun link hlink => (h.links.mp hlink).1
  obtain ⟨hlinked, hkept⟩ := foldl_relink_lookup h.linkedOnce happlies
  by_cases hmem : key ∈ links.map fun link => (link.parentDirectoryId, link.name)
  · obtain ⟨link, hlink, rfl⟩ := List.mem_map.mp hmem
    obtain ⟨⟨dataRoot, hentry⟩, hroot⟩ := h.links.mp hlink
    obtain ⟨update, hupdate, hid, hnew⟩ := (newRootOf_eq_some h.once).mp hroot
    obtain ⟨row, hrow, _, _, _, hne⟩ := h.current hupdate
    obtain ⟨below, hbelow, _, _, hsame⟩ := h.child hentry
    rw [hid, hbelow] at hrow
    cases hrow
    rw [hlinked link hlink, h.recomputed_directory hentry, Tree.withChildRoot, ← hid, h.rootAfter_of_update hupdate, hnew]
    dsimp only
    rw [if_neg]
    rw [← hnew, ← hsame]
    exact hne
  · rw [hkept key hmem]
    obtain ⟨directoryId, name⟩ := key
    cases hentry : edited.entries.lookup (directoryId, name) with
    | none => rw [Tree.recomputed, Table.lookup_mapRows, hentry, Option.map_none]
    | some entry =>
        obtain ⟨content, revision⟩ := entry
        cases content with
        | file _ _ _ _ _ => exact (recomputed_file hentry rfl).symm
        | directory child dataRoot =>
            obtain ⟨row, hrow, _, _, hsame⟩ := h.child hentry
            have hnot : child ∉ updates.map DirectoryUpdate.directoryId := by
              intro hchild
              obtain ⟨update, hupdate, hid⟩ := List.mem_map.mp hchild
              have hroot : newRootOf updates child = some update.newRoot :=
                (newRootOf_eq_some h.once).mpr ⟨update, hupdate, hid, rfl⟩
              exact hmem (List.mem_map.mpr
                ⟨⟨directoryId, child, name, revision, update.newRoot⟩, h.links.mpr ⟨⟨dataRoot, hentry⟩, hroot⟩, rfl⟩)
            rw [h.recomputed_directory hentry, rootAfter_of_not_mem hrow hnot, hsame, Tree.withChildRoot]
            dsimp only
            rw [if_pos rfl]

theorem sameRows : (Tree.mk (updateRoots updates edited.directories) (links.foldl relink edited.entries)).SameRows
    (edited.recomputed prims) :=
  ⟨h.updated, h.relinked⟩

/-! ### Rows, entries and roots agree again -/

omit h in
theorem shapeAt_recomputed (id : Identity) : (edited.recomputed prims).shapeAt id = edited.shapeAt id := by
  rw [Tree.shapeAt, Tree.shapeAt, Tree.recomputed, Table.lookup_mapRows, Option.map_map]
  congr 1
  funext row
  rw [Function.comp_apply]
  split_ifs
  · cases edited.recomputedRoot prims id with
    | none => rfl
    | some root =>
        rw [Option.elim_some, Tree.withRoot]
        split_ifs
        · rfl
        · rfl
  · rfl

/-- Every entry of the recomputed tree stands for an entry of the edited one. -/
theorem recomputed_entry {directoryId : Identity} {name : Text} {row : EntryRow}
    (hrow : (edited.recomputed prims).entries.lookup (directoryId, name) = some row) :
    ∃ old, edited.entries.lookup (directoryId, name) = some old ∧
      row.content.merkle name = Tree.relist (edited.rootAfter updates) (old.content.merkle name) := by
  cases hold : edited.entries.lookup (directoryId, name) with
  | none =>
      rw [Tree.recomputed, Table.lookup_mapRows, hold] at hrow
      cases hrow
  | some old =>
      refine ⟨old, rfl, ?_⟩
      obtain ⟨content, revision⟩ := old
      cases content with
      | file _ _ _ _ _ =>
          rw [recomputed_file hold rfl] at hrow
          cases hrow
          rfl
      | directory child dataRoot =>
          rw [h.recomputed_directory hold] at hrow
          cases hrow
          rw [Tree.withChildRoot]
          dsimp only
          split_ifs with hsame
          · rw [EntryContent.merkle, Tree.relist, hsame]
          · rfl

/-- A directory entry of the recomputed tree holds the root its child has there. -/
theorem recomputed_child {directoryId child : Identity} {name : Text} {dataRoot : Digest} {revision : Nat}
    (hrow : (edited.recomputed prims).entries.lookup (directoryId, name) = some ⟨.directory child dataRoot, revision⟩) :
    dataRoot = edited.rootAfter updates child ∧
      ∃ old revision', edited.entries.lookup (directoryId, name) = some ⟨.directory child old, revision'⟩ := by
  obtain ⟨⟨content, revision'⟩, hold, hsame⟩ := h.recomputed_entry hrow
  cases content with
  | file _ _ _ _ _ => cases hsame
  | directory found old =>
      cases hsame
      exact ⟨rfl, old, revision', hold⟩

/-- The recomputed tree lists what the edited one lists, under the new roots. -/
theorem recomputed_listing (id : Identity) : ((edited.recomputed prims).listing id).Perm
    ((edited.listing id).map (Tree.relist (edited.rootAfter updates))) := by
  have hnodup := (edited.recomputed prims).nodup_listing id
  refine (List.perm_ext_iff_of_nodup hnodup.of_map (Renaming.nodup_relisted _ _ _).of_map).mpr fun listed => ?_
  rw [Tree.mem_listing, List.mem_map]
  constructor
  · intro hlisted
    obtain ⟨name, row, hrow, rfl⟩ := hlisted
    obtain ⟨old, hold, hsame⟩ := h.recomputed_entry hrow
    exact ⟨_, Tree.mem_listing.mpr ⟨name, old, hold, rfl⟩, hsame.symm⟩
  · intro hlisted
    obtain ⟨_, hmem, rfl⟩ := hlisted
    obtain ⟨name, old, hold, rfl⟩ := Tree.mem_listing.mp hmem
    have hnew : ((edited.recomputed prims).entries.lookup (id, name)).isSome := by
      rw [Tree.recomputed, Table.lookup_mapRows, hold]
      rfl
    obtain ⟨row, hrow⟩ := Option.isSome_iff_exists.mp hnew
    obtain ⟨old', hold', hsame⟩ := h.recomputed_entry hrow
    rw [hold] at hold'
    cases hold'
    exact ⟨name, row, hrow, hsame.symm⟩

omit h in
theorem row_of_recomputed {id : Identity} {row : DirectoryRow}
    (hrow : (edited.recomputed prims).directories.lookup id = some row) :
    ∃ old, edited.directories.lookup id = some old ∧ row.state = old.state := by
  have hshape : (edited.recomputed prims).shapeAt id = edited.shapeAt id := shapeAt_recomputed id
  rw [shapeAt_of_lookup hrow] at hshape
  obtain ⟨old, hold, hsame⟩ := lookup_of_shapeAt hshape.symm
  have hstate := congrArg DirectoryRow.state hsame
  exact ⟨old, hold, hstate.symm⟩

theorem settled : (edited.recomputed prims).Settled prims where
  rooted := by
    refine h.rooted.of_parents ?_ ?_
    · intro id row hrow
      exact ⟨row, (shapeAt_recomputed id).trans hrow, rfl, rfl⟩
    · intro id row hrow
      exact ⟨row, (shapeAt_recomputed id).symm.trans hrow, rfl, rfl⟩
  linked := by
    constructor
    · intro directoryId name child dataRoot revision hrow
      obtain ⟨_, old, revision', hold⟩ := h.recomputed_child hrow
      rw [shapeAt_recomputed]
      exact h.linked.child hold
    · intro id row parentId hrow hactive hparent
      rw [shapeAt_recomputed] at hrow
      obtain ⟨dataRoot, revision, hentry⟩ := h.linked.entry hrow hactive hparent
      rw [h.recomputed_directory hentry, Tree.withChildRoot]
      dsimp only
      split_ifs
      · exact ⟨_, _, rfl⟩
      · exact ⟨_, _, rfl⟩
  childRoot := by
    intro key child dataRoot revision row hentry hrow
    obtain ⟨hroot, old, revision', hold⟩ := h.recomputed_child hentry
    obtain ⟨below, hbelow, _, hactive, _⟩ := h.child hold
    rw [h.recomputed_row hbelow, if_pos hactive, Option.some.injEq] at hrow
    rw [← hrow, hroot, Tree.withRoot]
    split_ifs with hsame
    · exact hsame.symm
    · rfl
  roots := by
    intro id row hrow hactive
    obtain ⟨old, hold, hstate⟩ := row_of_recomputed hrow
    have hlive := hstate.symm.trans hactive
    rw [h.recomputed_row hold, if_pos hlive, Option.some.injEq] at hrow
    rw [directoryMerkleRoot_perm ((edited.recomputed prims).nodup_listing id) (h.recomputed_listing id),
      h.roots hold hlive, ← hrow, Tree.withRoot]
    split_ifs with hsame
    · rw [hsame]
    · rfl
  housed := by
    intro directoryId name row hrow
    obtain ⟨old, hold, _⟩ := h.recomputed_entry hrow
    obtain ⟨directory, hdirectory, hactive⟩ := h.housed hold
    refine ⟨_, h.recomputed_row hdirectory, ?_⟩
    rw [if_pos hactive, Tree.withRoot]
    split_ifs
    · exact hactive
    · exact hactive
  emptied := by
    intro id row hrow hgone
    obtain ⟨old, hold, hstate⟩ := row_of_recomputed hrow
    have hdead : old.state ≠ .active := fun hactive => hgone (hstate.trans hactive)
    rw [h.recomputed_row hold, if_neg hdead, Option.some.injEq] at hrow
    rw [← hrow]
    exact h.emptied hold hdead

/-- The updates of one filesystem, up to its root directory, give it their last root. -/
theorem rerooted {tree after : Tree} {filesystemId : Identity} {root : Digest}
    (hsame : after.SameRows (edited.recomputed prims))
    (hkept : ∀ {id row}, edited.directories.lookup id = some row → row.parentId = none →
      tree.directories.lookup id = some row)
    (hchain : ∀ {update row}, update ∈ updates → edited.directories.lookup update.directoryId = some row →
      row.filesystemId = filesystemId)
    (htop : ∃ update ∈ updates, update.newRoot = root ∧ ∃ row, edited.directories.lookup update.directoryId = some row ∧
      row.parentId = none ∧ row.filesystemId = filesystemId) : tree.Rerooted filesystemId root after := by
  -- a root directory afterwards is one before, with the root of the updates
  have hold : ∀ {id row}, after.directories.lookup id = some row → row.parentId = none →
      ∃ old, edited.directories.lookup id = some old ∧ old.parentId = none ∧ old.filesystemId = row.filesystemId := by
    intro id row hrow hparent
    have hshape := (hsame.shapeAt id).trans (shapeAt_recomputed id)
    rw [shapeAt_of_lookup hrow] at hshape
    obtain ⟨old, hold, heq⟩ := lookup_of_shapeAt hshape.symm
    have hparents := congrArg DirectoryRow.parentId heq
    have hfilesystems := congrArg DirectoryRow.filesystemId heq
    exact ⟨old, hold, hparents.trans hparent, hfilesystems⟩
  obtain ⟨update, hupdate, hroot, top, htop, hnone, hfilesystem⟩ := htop
  constructor
  · intro id row hrow hparent hbelongs
    obtain ⟨old, hlookup, holdParent, holdFilesystem⟩ := hold hrow hparent
    have hid := h.rooted.unique (shapeAt_of_lookup htop) (shapeAt_of_lookup hlookup) hnone holdParent
      (hfilesystem.trans (hbelongs.symm.trans holdFilesystem.symm))
    obtain ⟨found, hfound, hactive, _⟩ := h.current hupdate
    rw [hsame.directories, ← hid, h.recomputed_row hfound, if_pos hactive, h.rootAfter_of_update hupdate,
      Option.some.injEq] at hrow
    rw [← hrow, Tree.withRoot]
    split_ifs with hunchanged
    · exact hunchanged.symm.trans hroot
    · exact hroot
  · intro id row hrow hparent hother
    obtain ⟨old, hlookup, holdParent, holdFilesystem⟩ := hold hrow hparent
    have hnot : id ∉ updates.map DirectoryUpdate.directoryId := by
      intro hmem
      obtain ⟨found, hfound, rfl⟩ := List.mem_map.mp hmem
      exact hother (holdFilesystem ▸ hchain hfound hlookup)
    rw [hsame.directories, ← h.updated, updateRoots_lookup_of_not_mem hnot] at hrow
    exact hkept hrow hparent

end Derived

end Rewriting

end Skydriver
