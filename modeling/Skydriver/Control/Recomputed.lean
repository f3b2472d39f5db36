import Skydriver.Control.RenamePlan

/-!
# Moving an entry and recomputing every root

What a rename is for: the entry stands under its new name, and every directory root is the root of the listing below
it, computed from the leaves up.  A plan of the planner, applied to the tree with the moved entry, gives this tree.
-/

namespace Skydriver

namespace Tree

/-! ### Roots from the bottom up -/

section Definitions

variable (prims : Primitives) (tree : Tree)

/-- The root of a directory, from the roots of the directories below it.  `levels` is how far down this goes. -/
def merkleRoot : Nat → Identity → Option Digest
  | 0, _ => none
  | levels + 1, id => do
      let entries ← (tree.listing id).mapM fun entry =>
        match entry with
        | .directory name child _ => (merkleRoot levels child).map (DirectoryMerkleEntry.directory name child)
        | .file name fileId versionId sizeBytes dataRoot metadataRoot =>
            some (.file name fileId versionId sizeBytes dataRoot metadataRoot)
      (directoryMerkleRoot prims entries).toOption

/-- The root of a directory, computed from the leaves up. -/
def recomputedRoot (id : Identity) : Option Digest := tree.merkleRoot prims (tree.directories.entries.length + 1) id

end Definitions

/-- A directory row with another root; a change counts in its revision. -/
def withRoot (row : DirectoryRow) (root : Digest) : DirectoryRow :=
  if root = row.dataRoot then row else { row with dataRoot := root, revision := row.revision + 1 }

/-- An entry of a directory with another root of its child; a change counts in its revision. -/
def withChildRoot (root : Digest) (row : EntryRow) : EntryRow :=
  match row.content with
  | .directory child dataRoot => if root = dataRoot then row else ⟨.directory child root, row.revision + 1⟩
  | .file _ _ _ _ _ => row

/-- The tree with every root of an active directory computed anew, in its row and in the entry that holds it. -/
def recomputed (prims : Primitives) (tree : Tree) : Tree where
  directories := tree.directories.mapRows fun id row =>
    if row.state = .active then (tree.recomputedRoot prims id).elim row (withRoot row) else row
  entries := tree.entries.mapRows fun _ row =>
    match row.content with
    | .directory child _ => (tree.recomputedRoot prims child).elim row fun root => withChildRoot root row
    | .file _ _ _ _ _ => row

/-- The tree with one entry under another name, and its directory, if it is one, below another parent. -/
def moveEntry (target : RenameTarget) (entry : EntryRow) (tree : Tree) : Tree where
  directories :=
    match entry.content with
    | .directory child _ => tree.directories.modify child (movedRow target)
    | .file _ _ _ _ _ => tree.directories
  entries := (tree.entries.erase (target.sourceDirectoryId, target.sourceName)).insert
    (target.destinationDirectoryId, target.destinationName) ⟨entry.content, entry.revision + 1⟩

structure SameRows (left right : Tree) : Prop where
  directories : ∀ id, left.directories.lookup id = right.directories.lookup id
  entries : ∀ key, left.entries.lookup key = right.entries.lookup key

/-- An entry with the root of its child from a function. -/
def relist (rootOf : Identity → Digest) : DirectoryMerkleEntry → DirectoryMerkleEntry
  | .directory name child _ => .directory name child (rootOf child)
  | .file name fileId versionId sizeBytes dataRoot metadataRoot =>
      .file name fileId versionId sizeBytes dataRoot metadataRoot

theorem mapM_eq_some {α β : Type} {act : α → Option β} {result : α → β} {values : List α}
    (h : ∀ value ∈ values, act value = some (result value)) : values.mapM act = some (values.map result) := by
  induction values with
  | nil => rfl
  | cons value values ih =>
      rw [List.forall_mem_cons] at h
      rw [List.mapM_cons, h.1, ih h.2]
      rfl

theorem entryName_relist (rootOf : Identity → Digest) (name : Text) (content : EntryContent) :
    entryName (relist rootOf (content.merkle name)) = name := by
  cases content with
  | file _ _ _ _ _ => rfl
  | directory _ _ => rfl

/-- Roots that agree with the listings are the roots computed from the leaves up. -/
theorem merkleRoot_eq {prims : Primitives} {tree : Tree} {rootOf : Identity → Digest}
    (hchild : ∀ {directoryId name child dataRoot revision},
      tree.entries.lookup (directoryId, name) = some ⟨.directory child dataRoot, revision⟩ →
        ∃ row, tree.directories.lookup child = some row ∧ row.parentId = some directoryId ∧ row.state = .active)
    (hroots : ∀ {id row}, tree.directories.lookup id = some row → row.state = .active →
      directoryMerkleRoot prims ((tree.listing id).map (relist rootOf)) = .ok (rootOf id))
    {levels rows : Nat} {id : Identity} {row : DirectoryRow} (hrow : tree.directories.lookup id = some row)
    (hactive : row.state = .active) (hdepth : tree.Depth id rows)
    (henough : tree.directories.entries.length + 1 < levels + rows) :
    tree.merkleRoot prims levels id = some (rootOf id) := by
  induction levels generalizing id row rows with
  | zero =>
      have := hdepth.le_length
      omega
  | succ levels ih =>
      have hentries : ∀ entry ∈ tree.listing id, (match entry with
          | .directory name child _ =>
              (tree.merkleRoot prims levels child).map (DirectoryMerkleEntry.directory name child)
          | .file name fileId versionId sizeBytes dataRoot metadataRoot =>
              some (.file name fileId versionId sizeBytes dataRoot metadataRoot)) = some (relist rootOf entry) := by
        intro entry hentry
        obtain ⟨stored, hstored, rfl⟩ := List.mem_map.mp hentry
        cases hmerkle : stored.entry with
        | file name fileId versionId sizeBytes dataRoot metadataRoot => rfl
        | directory name child dataRoot =>
            obtain ⟨name', dataRoot', revision, hlookup⟩ :=
              mem_storedEntries_childId hstored (by rw [StoredEntry.childId, hmerkle])
            obtain ⟨below, hbelow, hparent, hlive⟩ := hchild hlookup
            dsimp only
            rw [ih hbelow hlive (.up hbelow hparent hdepth) (by omega)]
            rfl
      rw [merkleRoot, mapM_eq_some hentries, Option.bind_eq_bind, Option.bind_some, hroots hrow hactive]
      rfl

/-! ### Listings -/

theorem nodup_storedEntries (tree : Tree) (directoryId : Identity) :
    ((tree.storedEntries directoryId).map fun stored => entryName stored.entry).Nodup := by
  have hperm := (KeyOrder.sortByKey_perm (fun stored : StoredEntry => entryName stored.entry)
    ((tree.entries.entries.filter fun row => row.1.1 == directoryId).map fun row =>
      ⟨row.2.content.merkle row.1.2, row.2.revision⟩)).map fun stored => entryName stored.entry
  rw [storedEntries, hperm.nodup_iff, List.map_map]
  have hkeys : ((tree.entries.entries.filter fun row => row.1.1 == directoryId).map Sigma.fst).Nodup :=
    List.Nodup.sublist (List.filter_sublist.map _) tree.entries.nodupKeys
  have hnames := List.Nodup.map_on (f := Prod.snd) ?_ hkeys
  · rw [List.map_map] at hnames
    refine (congrArg List.Nodup (List.map_congr_left ?_)).mp hnames
    intro row _
    exact (entryName_merkle _ _).symm
  · intro left hleft right hright hname
    obtain ⟨row, hrow, rfl⟩ := List.mem_map.mp hleft
    obtain ⟨other, hother, rfl⟩ := List.mem_map.mp hright
    have hdirectory := (List.mem_filter.mp hrow).2
    have hdirectory' := (List.mem_filter.mp hother).2
    rw [beq_iff_eq] at hdirectory hdirectory'
    exact Prod.ext (hdirectory.trans hdirectory'.symm) hname

theorem mem_listing {tree : Tree} {directoryId : Identity} {entry : DirectoryMerkleEntry} :
    entry ∈ tree.listing directoryId ↔
      ∃ name row, tree.entries.lookup (directoryId, name) = some row ∧ entry = row.content.merkle name := by
  rw [listing, List.mem_map]
  constructor
  · rintro ⟨stored, hmem, rfl⟩
    obtain ⟨name, row, hrow, rfl⟩ := mem_storedEntries.mp hmem
    exact ⟨name, row, hrow, rfl⟩
  · rintro ⟨name, row, hrow, rfl⟩
    exact ⟨_, mem_storedEntries.mpr ⟨name, row, hrow, rfl⟩, rfl⟩

theorem nodup_listing (tree : Tree) (directoryId : Identity) : ((tree.listing directoryId).map entryName).Nodup := by
  rw [listing, List.map_map]
  exact tree.nodup_storedEntries directoryId

/-! ### Rows of the tree with the moved entry -/

theorem moveEntry_entries (tree : Tree) (target : RenameTarget) (entry : EntryRow) (key : Identity × Text) :
    (tree.moveEntry target entry).entries.lookup key =
    if key = (target.destinationDirectoryId, target.destinationName) then some ⟨entry.content, entry.revision + 1⟩
    else if key = (target.sourceDirectoryId, target.sourceName) then none else tree.entries.lookup key := by
  rw [moveEntry, Table.lookup_insert_eq, Table.lookup_erase_eq]

theorem moveEntry_directories_of_ne (tree : Tree) (target : RenameTarget) {entry : EntryRow} {id : Identity}
    (hother : ∀ child dataRoot, entry.content = .directory child dataRoot → id ≠ child) :
    (tree.moveEntry target entry).directories.lookup id = tree.directories.lookup id := by
  cases hcontent : entry.content with
  | file _ _ _ _ _ => simp only [moveEntry, hcontent]
  | directory child dataRoot =>
      simp only [moveEntry, hcontent]
      exact Table.lookup_modify_ne _ (hother child dataRoot hcontent) _

theorem moveEntry_directories_self (tree : Tree) (target : RenameTarget) {entry : EntryRow} {child : Identity}
    {dataRoot : Digest} (hcontent : entry.content = .directory child dataRoot) :
    (tree.moveEntry target entry).directories.lookup child = (tree.directories.lookup child).map (movedRow target) := by
  simp only [moveEntry, hcontent]
  exact Table.lookup_modify_self _ _ _

theorem moveEntry_row {tree : Tree} {target : RenameTarget} {entry : EntryRow} {id : Identity} {row : DirectoryRow}
    (hrow : (tree.moveEntry target entry).directories.lookup id = some row) :
    ∃ old, tree.directories.lookup id = some old ∧ row.state = old.state ∧ row.filesystemId = old.filesystemId ∧
      row.dataRoot = old.dataRoot := by
  by_cases hchild : ∃ dataRoot, entry.content = .directory id dataRoot
  · obtain ⟨dataRoot, hcontent⟩ := hchild
    rw [moveEntry_directories_self _ _ hcontent, Option.map_eq_some_iff] at hrow
    obtain ⟨old, hold, rfl⟩ := hrow
    exact ⟨old, hold, rfl, rfl, rfl⟩
  · rw [moveEntry_directories_of_ne _ _ (by rintro child dataRoot hcontent rfl; exact hchild ⟨dataRoot, hcontent⟩)] at hrow
    exact ⟨row, hrow, rfl, rfl, rfl⟩

theorem moveEntry_row_of_row {tree : Tree} (target : RenameTarget) (entry : EntryRow) {id : Identity} {row : DirectoryRow}
    (hrow : tree.directories.lookup id = some row) :
    ∃ moved, (tree.moveEntry target entry).directories.lookup id = some moved ∧ moved.state = row.state := by
  by_cases hchild : ∃ dataRoot, entry.content = .directory id dataRoot
  · obtain ⟨dataRoot, hcontent⟩ := hchild
    exact ⟨movedRow target row, by rw [moveEntry_directories_self _ _ hcontent, hrow, Option.map_some], rfl⟩
  · refine ⟨row, ?_, rfl⟩
    rw [moveEntry_directories_of_ne _ _ (by rintro child dataRoot hcontent rfl; exact hchild ⟨dataRoot, hcontent⟩), hrow]

/-- The statements of a plan succeed if every link names the new root of its child. -/
theorem applyBranches_succeeds {updates : List DirectoryUpdate} {links : List LinkUpdate} {tree : Tree}
    (h : ∀ link ∈ links, (Tree.mk (updateRoots updates tree.directories) tree.entries).directoryEntryMatches
      link.parentDirectoryId link.name link.childDirectoryId link.newChildRoot = true) :
    tree.applyBranches updates links =
      some ⟨updateRoots updates tree.directories, links.foldl relink tree.entries⟩ := by
  rw [applyBranches, foldl_updateDirectoryRoot]
  generalize tree.entries = entries at h ⊢
  induction links generalizing entries with
  | nil => rfl
  | cons link links ih =>
      rw [List.forall_mem_cons] at h
      have hlink : (Tree.mk (updateRoots updates tree.directories) entries).updateLink link =
          some ⟨updateRoots updates tree.directories, relink entries link⟩ := by
        unfold updateLink relink
        dsimp only
        cases hlookup : entries.lookup (link.parentDirectoryId, link.name) with
        | none => rfl
        | some row =>
            obtain ⟨content, revision⟩ := row
            cases content with
            | file => rfl
            | directory child dataRoot =>
                dsimp only
                split_ifs with hmatch
                · rw [hmatch.1, h.1]
                  rfl
                · rfl
      rw [List.foldlM_cons, hlink, Option.bind_eq_bind, Option.bind_some, List.foldl_cons]
      exact ih (relink entries link) fun link hlink => h.2 link hlink

end Tree

theorem updateRoots_lookup {updates : List DirectoryUpdate} (hnodup : (updates.map DirectoryUpdate.directoryId).Nodup)
    {update : DirectoryUpdate} (hmem : update ∈ updates) {directories : Table Identity DirectoryRow} {row : DirectoryRow}
    (hrow : directories.lookup update.directoryId = some row) (hrevision : row.revision = update.expectedRevision)
    (hroot : row.dataRoot = update.expectedRoot) : (updateRoots updates directories).lookup update.directoryId =
      some { row with dataRoot := update.newRoot, revision := row.revision + 1 } := by
  induction updates generalizing directories with
  | nil => cases hmem
  | cons first updates ih =>
      rw [List.map_cons, List.nodup_cons] at hnodup
      rw [updateRoots_cons]
      rcases List.mem_cons.mp hmem with rfl | hmem
      · rw [updateRoots_lookup_of_not_mem hnodup.1, updateRoots, List.foldl_cons, List.foldl_nil,
          Table.lookup_modify_self, hrow, Option.map_some, if_pos ⟨hrevision, hroot⟩]
      · apply ih hnodup.2 hmem
        rw [updateRoots, List.foldl_cons, List.foldl_nil, Table.lookup_modify_ne, hrow]
        intro heq
        exact hnodup.1 (heq ▸ List.mem_map_of_mem hmem)

theorem updateRoots_congr (updates : List DirectoryUpdate) {directories other : Table Identity DirectoryRow}
    (h : ∀ id, directories.lookup id = other.lookup id) (id : Identity) :
    (updateRoots updates directories).lookup id = (updateRoots updates other).lookup id := by
  induction updates generalizing directories other with
  | nil => exact h id
  | cons first updates ih =>
      rw [updateRoots_cons, updateRoots_cons]
      apply ih
      intro found
      simp only [updateRoots, List.foldl_cons, List.foldl_nil, Table.lookup_modify, h found]

/-- Links whose expectations hold take effect, and leave every other entry alone. -/
theorem foldl_relink_lookup {links : List LinkUpdate}
    (hnodup : (links.map fun link => (link.parentDirectoryId, link.name)).Nodup)
    {entries : Table (Identity × Text) EntryRow}
    (h : ∀ link ∈ links, ∃ dataRoot, entries.lookup (link.parentDirectoryId, link.name) =
      some ⟨.directory link.childDirectoryId dataRoot, link.expectedRevision⟩) :
    (∀ link ∈ links, (links.foldl relink entries).lookup (link.parentDirectoryId, link.name) =
      some ⟨.directory link.childDirectoryId link.newChildRoot, link.expectedRevision + 1⟩) ∧
    ∀ key, (key ∉ links.map fun link => (link.parentDirectoryId, link.name)) →
      (links.foldl relink entries).lookup key = entries.lookup key := by
  induction links generalizing entries with
  | nil => exact ⟨by simp, fun _ _ => rfl⟩
  | cons first links ih =>
      rw [List.map_cons, List.nodup_cons] at hnodup
      rw [List.forall_mem_cons] at h
      obtain ⟨⟨dataRoot, hfirst⟩, hrest⟩ := h
      have hrelink : relink entries first = entries.insert (first.parentDirectoryId, first.name)
          ⟨.directory first.childDirectoryId first.newChildRoot, first.expectedRevision + 1⟩ := by
        rw [relink, hfirst]
        simp
      have hnext : ∀ link ∈ links, ∃ dataRoot, (relink entries first).lookup (link.parentDirectoryId, link.name) =
          some ⟨.directory link.childDirectoryId dataRoot, link.expectedRevision⟩ := by
        intro link hlink
        rw [hrelink, Table.lookup_insert_eq, if_neg]
        · exact hrest link hlink
        · intro heq
          exact hnodup.1 (heq ▸ List.mem_map_of_mem (f := fun link => (link.parentDirectoryId, link.name)) hlink)
      obtain ⟨hlinked, hkept⟩ := ih hnodup.2 hnext
      rw [List.foldl_cons]
      constructor
      · rw [List.forall_mem_cons]
        refine ⟨?_, hlinked⟩
        rw [hkept _ hnodup.1, hrelink, Table.lookup_insert_eq, if_pos rfl]
      · intro key hkey
        rw [List.map_cons, List.mem_cons, not_or] at hkey
        rw [hkept key hkey.2, hrelink, Table.lookup_insert_eq, if_neg hkey.1]

/-! ### The tree with the moved entry -/

section Moved

variable {prims : Primitives} {tree : Tree} {filesystemId : Identity} {target : RenameTarget}
  {expectedSourceRevision : Nat} {source destination : List LoadedDirectory} {plan : RootPlan} {entry : EntryRow}
  {ordered : List (LoadedDirectory × List StoredEntry)}

theorem AncestorChain.depth_le {id : Identity} {chain : List LoadedDirectory}
    (hchain : AncestorChain tree filesystemId id chain) {loaded : LoadedDirectory} (hmem : loaded ∈ chain) {rows : Nat}
    (hdepth : tree.Depth loaded.1 rows) : rows ≤ chain.length := by
  have heq := hdepth.functional (hchain.depthIn hmem)
  have hpos : 0 < chain.length := List.length_pos_of_mem hmem
  rw [Skydriver.depthIn] at heq
  omega

theorem AncestorChain.mem_ancestors {id : Identity} {chain : List LoadedDirectory}
    (hchain : AncestorChain tree filesystemId id chain) {above : Identity} :
    above ∈ tree.ancestors id ↔ above ∈ chain.map Prod.fst := by
  have hreach : (∃ steps, tree.directories.Reaches DirectoryRow.parentId steps id above) ↔ above ∈ chain.map Prod.fst := by
    induction hchain with
    | @top id row hrow _ _ hparent =>
        rw [List.map_singleton, List.mem_singleton]
        constructor
        · rintro ⟨steps, hreach⟩
          cases hreach with
          | refl _ => rfl
          | step hrow' hparent' _ =>
              rw [hrow] at hrow'
              cases hrow'
              rw [hparent] at hparent'
              cases hparent'
        · rintro rfl
          exact ⟨0, .refl hrow⟩
    | @up id parent row rest hrow _ _ hparent _ ih =>
        rw [List.map_cons, List.mem_cons, ← ih]
        constructor
        · rintro ⟨steps, hreach⟩
          cases hreach with
          | refl _ => exact .inl rfl
          | step hrow' hparent' hrest =>
              rw [hrow] at hrow'
              cases hrow'
              rw [hparent] at hparent'
              cases hparent'
              exact .inr ⟨_, hrest⟩
        · rintro (rfl | ⟨steps, hreach⟩)
          · exact ⟨0, .refl hrow⟩
          · exact ⟨steps + 1, .step hrow hparent hreach⟩
  rw [Tree.ancestors, List.mem_map, ← hreach]
  constructor
  · rintro ⟨⟨found, row⟩, hmem, rfl⟩
    exact (Table.mem_lineage_iff.mp hmem).2
  · rintro ⟨steps, hsteps⟩
    obtain ⟨row, hrow⟩ := hsteps.lookup_above
    exact ⟨(above, row), Table.mem_lineage_iff.mpr ⟨hrow, steps, hsteps⟩, rfl⟩

def RootPlan.rootAfter (plan : RootPlan) (tree : Tree) (id : Identity) : Digest :=
  (newRootOf plan.directories id).getD ((tree.directories.lookup id).elim (.zero 32) DirectoryRow.dataRoot)

/-- The search for a collision between the listings of a directory before and after finds one. -/
def RenameCollides (prims : Primitives) (tree : Tree) (target : RenameTarget) (entry : EntryRow) (id : Identity) : Prop :=
  let preimages := directoryRootPreimages prims (tree.listing id) ++
    directoryRootPreimages prims (((tree.moveEntry target entry).recomputed prims).listing id)
  Collides prims preimages preimages

/-- A plan together with what it was computed from. -/
structure Renaming (prims : Primitives) (tree : Tree) (filesystemId : Identity) (target : RenameTarget)
    (expectedSourceRevision : Nat) (source destination : List LoadedDirectory) (plan : RootPlan) (entry : EntryRow)
    (ordered : List (LoadedDirectory × List StoredEntry)) : Prop where
  consistent : tree.Consistent prims
  sourceChain : AncestorChain tree filesystemId target.sourceDirectoryId source
  destinationChain : AncestorChain tree filesystemId target.destinationDirectoryId destination
  planned : RenamePlanned prims tree target expectedSourceRevision source destination plan entry ordered

namespace Renaming

variable (h : Renaming prims tree filesystemId target expectedSourceRevision source destination plan entry ordered)
include h

theorem merged : Merged tree filesystemId target (mergeChains source destination) :=
  merged_mergeChains h.sourceChain h.destinationChain

theorem keys_ne : (target.sourceDirectoryId, target.sourceName) ≠
    (target.destinationDirectoryId, target.destinationName) := by
  intro heq
  have hfound := h.planned.found
  rw [heq, h.planned.free] at hfound
  cases hfound

/-- A moved directory stands below its source and holds no part of either chain. -/
theorem child {child : Identity} {dataRoot : Digest} (hcontent : entry.content = .directory child dataRoot) :
    ∃ row, tree.directories.lookup child = some row ∧ row.parentId = some target.sourceDirectoryId ∧
      row.name = target.sourceName ∧ row.state = .active ∧ row.dataRoot = dataRoot ∧
      child ∉ (mergeChains source destination).map Prod.fst := by
  have hentry : tree.entries.lookup (target.sourceDirectoryId, target.sourceName) =
      some ⟨.directory child dataRoot, entry.revision⟩ := by
    rw [h.planned.found, ← hcontent]
  obtain ⟨shape, hshape, hparent, hname, hactive⟩ := h.consistent.linked.child hentry
  obtain ⟨row, hrow, rfl⟩ := lookup_of_shapeAt hshape
  refine ⟨row, hrow, hparent, hname, hactive, h.consistent.childRoot hentry hrow, ?_⟩
  intro hmem
  obtain ⟨loaded, hloaded, hid⟩ := List.mem_map.mp hmem
  rcases (mem_mergeChains h.sourceChain h.destinationChain).mp hloaded with hleft | hright
  · have hdepth : tree.Depth loaded.1 (source.length + 1) := hid ▸ .up hrow hparent h.sourceChain.depth
    have := h.sourceChain.depth_le hleft hdepth
    omega
  · exact h.planned.acyclic child dataRoot hcontent (hid ▸ List.mem_map_of_mem hright)

theorem lookup_moved_chain {id : Identity} (hmem : id ∈ (mergeChains source destination).map Prod.fst) :
    (tree.moveEntry target entry).directories.lookup id = tree.directories.lookup id := by
  apply Tree.moveEntry_directories_of_ne
  rintro child dataRoot hcontent rfl
  obtain ⟨_, _, _, _, _, _, hnot⟩ := h.child hcontent
  exact hnot hmem

theorem moved_child {directoryId child : Identity} {name : Text} {dataRoot : Digest} {revision : Nat}
    (hentry : (tree.moveEntry target entry).entries.lookup (directoryId, name) =
      some ⟨.directory child dataRoot, revision⟩) :
    ∃ row, (tree.moveEntry target entry).directories.lookup child = some row ∧ row.parentId = some directoryId ∧
      row.name = name ∧ row.state = .active ∧ row.dataRoot = dataRoot := by
  rw [Tree.moveEntry_entries] at hentry
  split_ifs at hentry with hnew hold
  · cases hnew
    rw [Option.some.injEq, EntryRow.mk.injEq] at hentry
    obtain ⟨row, hrow, _, _, hactive, hroot, _⟩ := h.child hentry.1
    refine ⟨movedRow target row, ?_, rfl, rfl, hactive, hroot⟩
    rw [Tree.moveEntry_directories_self _ _ hentry.1, hrow, Option.map_some]
  · obtain ⟨shape, hshape, hparent, hname, hactive⟩ := h.consistent.linked.child hentry
    obtain ⟨row, hrow, rfl⟩ := lookup_of_shapeAt hshape
    refine ⟨row, ?_, hparent, hname, hactive, h.consistent.childRoot hentry hrow⟩
    rw [Tree.moveEntry_directories_of_ne _ _ ?_, hrow]
    rintro moved dataRoot' hcontent rfl
    obtain ⟨row', hrow', hparent', hname', _⟩ := h.child hcontent
    rw [hrow] at hrow'
    cases hrow'
    exact hold (Prod.ext (Option.some.inj (hparent.symm.trans hparent')) (hname.symm.trans hname'))

theorem moved_rooted : (tree.moveEntry target entry).Rooted := by
  cases hcontent : entry.content with
  | file _ _ _ _ _ =>
      refine h.consistent.rooted.of_parents ?_ ?_
      · intro id row hrow
        refine ⟨row, ?_, rfl, rfl⟩
        rw [← hrow, Tree.shapeAt, Tree.shapeAt, Tree.moveEntry, hcontent]
      · intro id row hrow
        refine ⟨row, ?_, rfl, rfl⟩
        rw [← hrow, Tree.shapeAt, Tree.shapeAt, Tree.moveEntry, hcontent]
  | directory child dataRoot =>
      obtain ⟨row, hrow, hparent, _, _, _, hnot⟩ := h.child hcontent
      obtain ⟨destinationRow, hdestination⟩ := h.merged.destination
      obtain ⟨sourceRow, hsource⟩ := h.merged.source
      obtain ⟨hdestinationRow, hfilesystem, _⟩ := h.merged.row hdestination
      obtain ⟨above, habove, hsame⟩ := h.consistent.rooted.parent (shapeAt_of_lookup hrow) hparent
      rw [shapeAt_of_lookup (h.merged.row hsource).1] at habove
      cases habove
      refine h.consistent.rooted.moved hrow ?_ hdestinationRow ?_ ?_
      · intro hmem
        obtain ⟨loaded, hloaded, hid⟩ := List.mem_map.mp (h.destinationChain.mem_ancestors.mp hmem)
        exact hnot (hid ▸ List.mem_map_of_mem ((mem_mergeChains h.sourceChain h.destinationChain).mpr (.inr hloaded)))
      · exact hfilesystem.trans ((h.merged.row hsource).2.1.symm.trans hsame)
      · intro id
        rw [Tree.shapeAt]
        split_ifs with hid
        · rw [hid, Tree.moveEntry_directories_self _ _ hcontent, hrow]
          rfl
        · rw [Tree.moveEntry_directories_of_ne, Tree.shapeAt]
          intro other dataRoot' hother heq
          rw [hcontent] at hother
          cases hother
          exact hid heq

theorem newRootOf_eq_none {id : Identity} (hnot : id ∉ (mergeChains source destination).map Prod.fst) :
    newRootOf plan.directories id = none := by
  rw [Option.eq_none_iff_forall_ne_some]
  intro root hroot
  obtain ⟨update, hupdate, rfl, _⟩ := (h.planned.newRootOf_eq_some h.merged.nodup).mp hroot
  obtain ⟨loaded, hloaded, hlevel⟩ := h.planned.mem_directories.mp hupdate
  apply hnot
  rw [levelUpdate_directoryId hlevel]
  exact List.mem_map_of_mem hloaded

theorem rootAfter_child {directoryId child : Identity} {name : Text} {dataRoot : Digest} {revision : Nat}
    (hentry : tree.entries.lookup (directoryId, name) = some ⟨.directory child dataRoot, revision⟩) :
    plan.rootAfter tree child = (newRootOf plan.directories child).getD dataRoot := by
  obtain ⟨shape, hshape, _⟩ := h.consistent.linked.child hentry
  obtain ⟨row, hrow, _⟩ := lookup_of_shapeAt hshape
  rw [RootPlan.rootAfter, hrow, Option.elim_some, h.consistent.childRoot hentry hrow]

theorem relinkEntry_fst {directoryId : Identity} {name : Text} {row : EntryRow}
    (hrow : tree.entries.lookup (directoryId, name) = some row) :
    (relinkEntry plan.directories directoryId ⟨row.content.merkle name, row.revision⟩).1 =
      Tree.relist (plan.rootAfter tree) (row.content.merkle name) := by
  obtain ⟨content, revision⟩ := row
  cases content with
  | file _ _ _ _ _ => rfl
  | directory child dataRoot =>
      simp only [EntryContent.merkle, relinkEntry, Tree.relist, h.rootAfter_child hrow]
      cases newRootOf plan.directories child with
      | none => rfl
      | some root => rfl

theorem relist_moved (name : Text) :
    Tree.relist (plan.rootAfter tree) (entry.content.merkle name) = entry.content.merkle name := by
  cases hcontent : entry.content with
  | file _ _ _ _ _ => rfl
  | directory child dataRoot =>
      obtain ⟨row, hrow, _, _, _, hroot, hnot⟩ := h.child hcontent
      rw [EntryContent.merkle, Tree.relist, RootPlan.rootAfter, h.newRootOf_eq_none hnot, hrow, Option.getD_none,
        Option.elim_some, hroot]

theorem mem_newListing {id : Identity} {listed : DirectoryMerkleEntry} :
    listed ∈ plan.newListing tree target entry id ↔
      (∃ name row, tree.entries.lookup (id, name) = some row ∧ (id, name) ≠ (target.sourceDirectoryId, target.sourceName) ∧
        listed = Tree.relist (plan.rootAfter tree) (row.content.merkle name)) ∨
      (id = target.destinationDirectoryId ∧ listed = entry.content.merkle target.destinationName) := by
  rw [RootPlan.newListing, renameEntries]
  simp only [List.mem_append, List.map_map, List.mem_map, List.mem_filter, Function.comp_apply]
  refine or_congr ?_ ?_
  · constructor
    · rintro ⟨stored, ⟨hstored, hkept⟩, rfl⟩
      obtain ⟨name, row, hrow, rfl⟩ := Tree.mem_storedEntries.mp hstored
      refine ⟨name, row, hrow, ?_, h.relinkEntry_fst hrow⟩
      rintro heq
      cases heq
      simp [entryName_merkle] at hkept
    · rintro ⟨name, row, hrow, hkept, rfl⟩
      refine ⟨_, ⟨Tree.mem_storedEntries.mpr ⟨name, row, hrow, rfl⟩, ?_⟩, h.relinkEntry_fst hrow⟩
      simpa [entryName_merkle, Prod.ext_iff, ← imp_iff_not_or] using hkept
  · split_ifs with hdestination
    · simp [hdestination]
    · simp [hdestination]

theorem mem_relisted {id : Identity} {listed : DirectoryMerkleEntry} :
    listed ∈ ((tree.moveEntry target entry).listing id).map (Tree.relist (plan.rootAfter tree)) ↔
      (∃ name row, tree.entries.lookup (id, name) = some row ∧ (id, name) ≠ (target.sourceDirectoryId, target.sourceName) ∧
        listed = Tree.relist (plan.rootAfter tree) (row.content.merkle name)) ∨
      (id = target.destinationDirectoryId ∧ listed = entry.content.merkle target.destinationName) := by
  rw [List.mem_map]
  constructor
  · rintro ⟨found, hfound, rfl⟩
    obtain ⟨name, row, hrow, rfl⟩ := Tree.mem_listing.mp hfound
    rw [Tree.moveEntry_entries] at hrow
    split_ifs at hrow with hnew hold
    · cases hnew
      cases hrow
      exact .inr ⟨rfl, h.relist_moved _⟩
    · exact .inl ⟨name, row, hrow, hold, rfl⟩
  · rintro (⟨name, row, hrow, hkept, rfl⟩ | ⟨rfl, rfl⟩)
    · refine ⟨_, Tree.mem_listing.mpr ⟨name, row, ?_, rfl⟩, rfl⟩
      rw [Tree.moveEntry_entries, if_neg, if_neg hkept, hrow]
      intro hnew
      rw [hnew, h.planned.free] at hrow
      cases hrow
    · refine ⟨_, Tree.mem_listing.mpr ⟨target.destinationName, ⟨entry.content, entry.revision + 1⟩, ?_, rfl⟩,
        h.relist_moved _⟩
      rw [Tree.moveEntry_entries, if_pos rfl]

omit h in
theorem nodup_relisted (tree : Tree) (rootOf : Identity → Digest) (id : Identity) :
    (((tree.listing id).map (Tree.relist rootOf)).map entryName).Nodup := by
  have hnames : ((tree.listing id).map (Tree.relist rootOf)).map entryName = (tree.listing id).map entryName := by
    rw [List.map_map]
    refine List.map_congr_left fun listed _ => ?_
    cases listed with
    | file _ _ _ _ _ _ => rfl
    | directory _ _ _ => rfl
  rw [hnames]
  exact tree.nodup_listing id

theorem relist_outside {id : Identity} {name : Text} {row : EntryRow}
    (hnot : id ∉ (mergeChains source destination).map Prod.fst) (hrow : tree.entries.lookup (id, name) = some row) :
    Tree.relist (plan.rootAfter tree) (row.content.merkle name) = row.content.merkle name := by
  obtain ⟨content, revision⟩ := row
  cases content with
  | file _ _ _ _ _ => rfl
  | directory child dataRoot =>
      -- a chain that holds the child holds this directory too
      have hbelow : child ∉ (mergeChains source destination).map Prod.fst := by
        intro hchild
        obtain ⟨loaded, hloaded, rfl⟩ := List.mem_map.mp hchild
        obtain ⟨shape, hshape, hparent, _⟩ := h.consistent.linked.child hrow
        rw [shapeAt_of_lookup (h.merged.row hloaded).1] at hshape
        cases hshape
        obtain ⟨above, habove⟩ := h.merged.parent hloaded hparent
        exact hnot (List.mem_map_of_mem habove)
      rw [EntryContent.merkle, Tree.relist, h.rootAfter_child hrow, h.newRootOf_eq_none hbelow, Option.getD_none]

/-- In the moved tree, the roots after the plan are the roots of the listings. -/
theorem moved_roots {id : Identity} {row : DirectoryRow}
    (hrow : (tree.moveEntry target entry).directories.lookup id = some row) (hactive : row.state = .active) :
    directoryMerkleRoot prims (((tree.moveEntry target entry).listing id).map (Tree.relist (plan.rootAfter tree))) =
      .ok (plan.rootAfter tree id) := by
  have hnodup := nodup_relisted (tree.moveEntry target entry) (plan.rootAfter tree) id
  obtain ⟨old, hold, hstate, _, _⟩ := Tree.moveEntry_row hrow
  by_cases hmem : id ∈ (mergeChains source destination).map Prod.fst
  · obtain ⟨loaded, hloaded, rfl⟩ := List.mem_map.mp hmem
    obtain ⟨newRoot, hroot, hnew⟩ := h.planned.level h.merged.nodup hloaded
    have hlisting := (directoryMerkleRoot_succeeds_iff.mp ⟨_, hroot⟩).2.2
    have hperm := (List.perm_ext_iff_of_nodup hnodup.of_map hlisting.of_map).mpr fun listed => by
      rw [h.mem_relisted, h.mem_newListing]
    rw [directoryMerkleRoot_perm hnodup hperm, hroot, RootPlan.rootAfter, hnew, (h.merged.row hloaded).1,
      Option.elim_some]
    split_ifs with hsame
    · rw [hsame, Option.getD_none]
    · rw [Option.getD_some]
  · rw [RootPlan.rootAfter, h.newRootOf_eq_none hmem, hold, Option.getD_none, Option.elim_some]
    have hperm := (List.perm_ext_iff_of_nodup hnodup.of_map (tree.nodup_listing id).of_map).mpr fun listed => by
      rw [h.mem_relisted, Tree.mem_listing]
      constructor
      · rintro (⟨name, found, hfound, _, rfl⟩ | ⟨rfl, _⟩)
        · exact ⟨name, found, hfound, h.relist_outside hmem hfound⟩
        · obtain ⟨above, habove⟩ := h.merged.destination
          exact absurd (List.mem_map_of_mem habove) hmem
      · rintro ⟨name, found, hfound, rfl⟩
        refine .inl ⟨name, found, hfound, ?_, (h.relist_outside hmem hfound).symm⟩
        rintro heq
        cases heq
        obtain ⟨above, habove⟩ := h.merged.source
        exact hmem (List.mem_map_of_mem habove)
    rw [directoryMerkleRoot_perm hnodup hperm, h.consistent.roots hold (hstate ▸ hactive)]

theorem recomputedRoot_eq {id : Identity} {row : DirectoryRow}
    (hrow : (tree.moveEntry target entry).directories.lookup id = some row) (hactive : row.state = .active) :
    (tree.moveEntry target entry).recomputedRoot prims id = some (plan.rootAfter tree id) := by
  obtain ⟨rows, hdepth⟩ := h.moved_rooted.grounded (shapeAt_of_lookup hrow)
  have hpos : 0 < rows := Table.Chain.pos hdepth
  refine Tree.merkleRoot_eq ?_ h.moved_roots hrow hactive hdepth (by omega)
  intro directoryId name child dataRoot revision hentry
  obtain ⟨below, hbelow, hparent, _, hlive, _⟩ := h.moved_child hentry
  exact ⟨below, hbelow, hparent, hlive⟩

/-! ### The links of the plan -/

theorem mem_links {link : LinkUpdate} : link ∈ plan.links ↔
    ∃ directoryId name child dataRoot revision root,
      tree.entries.lookup (directoryId, name) = some ⟨.directory child dataRoot, revision⟩ ∧
      newRootOf plan.directories child = some root ∧ link = ⟨directoryId, child, name, revision, root⟩ := by
  have hlinks := (renameLevels_eq_ok h.planned.first h.planned.levels).2.2
  rw [List.nil_append] at hlinks
  rw [hlinks, List.mem_flatMap]
  constructor
  · rintro ⟨⟨loaded, stored⟩, hlisting, hlink⟩
    obtain ⟨_, hstored⟩ := h.planned.mem_ordered.mp hlisting
    simp only [renameEntries, List.mem_flatten, List.map_map, List.mem_map, List.mem_filter, Function.comp_apply] at hlink
    obtain ⟨_, ⟨candidate, ⟨hcandidate, _⟩, rfl⟩, hlink⟩ := hlink
    dsimp only at hstored
    rw [hstored] at hcandidate
    obtain ⟨name, ⟨content, revision⟩, hrow, rfl⟩ := Tree.mem_storedEntries.mp hcandidate
    cases content with
    | file _ _ _ _ _ => cases hlink
    | directory child dataRoot =>
        simp only [EntryContent.merkle, relinkEntry] at hlink
        cases hroot : newRootOf plan.directories child with
        | none =>
            rw [hroot] at hlink
            cases hlink
        | some root =>
            rw [hroot] at hlink
            exact ⟨loaded.1, name, child, dataRoot, revision, root, hrow, hroot, List.mem_singleton.mp hlink⟩
  · rintro ⟨directoryId, name, child, dataRoot, revision, root, hrow, hroot, rfl⟩
    have hchild : child ∈ (mergeChains source destination).map Prod.fst := by
      by_contra hnot
      rw [h.newRootOf_eq_none hnot] at hroot
      cases hroot
    obtain ⟨loaded, hloaded, rfl⟩ := List.mem_map.mp hchild
    obtain ⟨shape, hshape, hparent, _⟩ := h.consistent.linked.child hrow
    rw [shapeAt_of_lookup (h.merged.row hloaded).1] at hshape
    cases hshape
    obtain ⟨above, habove⟩ := h.merged.parent hloaded hparent
    refine ⟨((directoryId, above), tree.storedEntries directoryId), h.planned.mem_ordered.mpr ⟨habove, rfl⟩, ?_⟩
    simp only [renameEntries, List.mem_flatten, List.map_map, List.mem_map, List.mem_filter, Function.comp_apply]
    refine ⟨_, ⟨⟨.directory name loaded.1 dataRoot, revision⟩, ⟨Tree.mem_storedEntries.mpr ⟨name, _, hrow, rfl⟩, ?_⟩,
      rfl⟩, ?_⟩
    · rw [Bool.not_eq_true', Bool.and_eq_false_iff, beq_eq_false_iff_ne, beq_eq_false_iff_ne, ← not_and_or]
      rintro ⟨rfl, hname⟩
      have hname : name = target.sourceName := hname
      -- the moved directory is in no chain
      have hfound := h.planned.found
      rw [← hname, hrow, Option.some.injEq] at hfound
      obtain ⟨_, _, _, _, _, _, hnot⟩ := h.child (congrArg EntryRow.content hfound.symm)
      exact hnot hchild
    · simp only [relinkEntry, hroot, List.mem_singleton]

theorem nodup_links : (plan.links.map fun link => (link.parentDirectoryId, link.name)).Nodup := by
  have hlinks := (renameLevels_eq_ok h.planned.first h.planned.levels).2.2
  rw [List.nil_append] at hlinks
  have hone : ∀ (id : Identity) (stored : StoredEntry),
      ((relinkEntry plan.directories id stored).2.map fun link => (link.parentDirectoryId, link.name)).Sublist
        [(id, entryName stored.entry)] := by
    intro id stored
    obtain ⟨merkle, revision⟩ := stored
    cases merkle with
    | file _ _ _ _ _ _ => exact List.nil_sublist _
    | directory name child dataRoot =>
        simp only [relinkEntry]
        cases newRootOf plan.directories child with
        | none => exact List.nil_sublist _
        | some root => exact List.Sublist.refl _
  have hlisting : ∀ (id : Identity) (stored : List StoredEntry),
      ((renameEntries target (entry.content.merkle target.destinationName) plan.directories id stored).2.map fun link =>
        (link.parentDirectoryId, link.name)).Sublist (stored.map fun stored => (id, entryName stored.entry)) := by
    intro id stored
    have hkept : ∀ kept : List StoredEntry, ((kept.map ((List.map fun link => (link.parentDirectoryId, link.name)) ∘
        Prod.snd ∘ relinkEntry plan.directories id)).flatten).Sublist
          (kept.map fun stored => (id, entryName stored.entry)) := by
      intro kept
      induction kept with
      | nil => exact List.Sublist.refl _
      | cons first rest ih =>
          rw [List.map_cons, List.flatten_cons, List.map_cons, ← List.singleton_append]
          exact (hone id first).append ih
    simp only [renameEntries, List.map_map, List.map_flatten]
    exact (hkept _).trans (List.filter_sublist.map _)
  rw [hlinks, List.map_flatMap, List.nodup_flatMap]
  refine ⟨?_, ?_⟩
  · rintro ⟨loaded, stored⟩ hmem
    obtain ⟨_, hstored⟩ := h.planned.mem_ordered.mp hmem
    refine List.Nodup.sublist (hlisting loaded.1 stored) ?_
    have hnames := tree.nodup_storedEntries loaded.1
    dsimp only at hstored
    rw [← hstored] at hnames
    have hpairs : (stored.map fun stored => (loaded.1, entryName stored.entry)).map Prod.snd =
        stored.map fun stored => entryName stored.entry := by
      rw [List.map_map]
      rfl
    exact (hpairs ▸ hnames).of_map
  · have hids := List.pairwise_map.mp (h.planned.nodup_ordered h.merged.nodup)
    refine hids.imp ?_
    rintro ⟨loaded, stored⟩ ⟨other, stored'⟩ hne key hkey hkey'
    obtain ⟨_, _, rfl⟩ := List.mem_map.mp ((hlisting _ _).subset hkey)
    obtain ⟨_, _, heq⟩ := List.mem_map.mp ((hlisting _ _).subset hkey')
    exact hne (congrArg Prod.fst heq).symm

theorem mem_updates {update : DirectoryUpdate} (hmem : update ∈ plan.directories) :
    ∃ row, (update.directoryId, row) ∈ mergeChains source destination ∧ row.revision = update.expectedRevision ∧
      row.dataRoot = update.expectedRoot ∧ newRootOf plan.directories update.directoryId = some update.newRoot ∧
      update.newRoot ≠ row.dataRoot := by
  obtain ⟨loaded, hloaded, hlevel⟩ := h.planned.mem_directories.mp hmem
  unfold levelUpdate at hlevel
  split at hlevel
  · cases hlevel
  · rename_i newRoot _
    split_ifs at hlevel with hsame
    rw [Option.some.injEq] at hlevel
    refine ⟨loaded.2, ?_, ?_, ?_, (h.planned.newRootOf_eq_some h.merged.nodup).mpr ⟨update, hmem, rfl, rfl⟩, ?_⟩
    · rw [← hlevel]
      exact hloaded
    · rw [← hlevel]
    · rw [← hlevel]
    · rw [← hlevel]
      exact hsame

theorem lookup_updated (id : Identity) :
    (updateRoots plan.directories (tree.moveEntry target entry).directories).lookup id =
      ((tree.moveEntry target entry).recomputed prims).directories.lookup id := by
  rw [Tree.recomputed, Table.lookup_mapRows]
  by_cases hmem : id ∈ plan.directories.map DirectoryUpdate.directoryId
  · obtain ⟨update, hupdate, rfl⟩ := List.mem_map.mp hmem
    obtain ⟨row, hloaded, hrevision, hroot, hnew, hne⟩ := h.mem_updates hupdate
    obtain ⟨hrow, _, hactive⟩ := h.merged.row hloaded
    have hmoved := h.lookup_moved_chain (List.mem_map_of_mem hloaded)
    rw [hrow] at hmoved
    rw [updateRoots_lookup (h.planned.nodup_directories h.merged.nodup) hupdate hmoved hrevision hroot, hmoved,
      Option.map_some, if_pos hactive, h.recomputedRoot_eq hmoved hactive, RootPlan.rootAfter, hnew, Option.getD_some,
      Option.elim_some, Tree.withRoot, if_neg hne]
  · rw [updateRoots_lookup_of_not_mem hmem]
    cases hmoved : (tree.moveEntry target entry).directories.lookup id with
    | none => rfl
    | some row =>
        rw [Option.map_some]
        split_ifs with hactive
        · have hnone : newRootOf plan.directories id = none := by
            rw [Option.eq_none_iff_forall_ne_some]
            intro root hroot
            obtain ⟨update, hupdate, rfl, _⟩ := (h.planned.newRootOf_eq_some h.merged.nodup).mp hroot
            exact hmem (List.mem_map_of_mem hupdate)
          obtain ⟨old, hold, _, _, hroot⟩ := Tree.moveEntry_row hmoved
          rw [h.recomputedRoot_eq hmoved hactive, RootPlan.rootAfter, hnone, hold, Option.getD_none, Option.elim_some,
            Option.elim_some, Tree.withRoot, if_pos hroot.symm]
        · rfl

theorem moved_link {link : LinkUpdate} (hmem : link ∈ plan.links) :
    ∃ dataRoot, tree.entries.lookup (link.parentDirectoryId, link.name) =
        some ⟨.directory link.childDirectoryId dataRoot, link.expectedRevision⟩ ∧
      (tree.moveEntry target entry).entries.lookup (link.parentDirectoryId, link.name) =
        some ⟨.directory link.childDirectoryId dataRoot, link.expectedRevision⟩ ∧
      newRootOf plan.directories link.childDirectoryId = some link.newChildRoot ∧ link.newChildRoot ≠ dataRoot := by
  obtain ⟨directoryId, name, child, dataRoot, revision, root, hrow, hroot, rfl⟩ := h.mem_links.mp hmem
  obtain ⟨update, hupdate, rfl, rfl⟩ := (h.planned.newRootOf_eq_some h.merged.nodup).mp hroot
  obtain ⟨row, hloaded, _, _, _, hne⟩ := h.mem_updates hupdate
  refine ⟨dataRoot, hrow, ?_, hroot, ?_⟩
  · dsimp only
    rw [Tree.moveEntry_entries, if_neg, if_neg, hrow]
    · intro heq
      have hfound := h.planned.found
      rw [← heq, hrow, Option.some.injEq] at hfound
      obtain ⟨_, _, _, _, _, _, hnot⟩ := h.child (congrArg EntryRow.content hfound.symm)
      exact hnot (List.mem_map_of_mem hloaded)
    · intro heq
      rw [heq, h.planned.free] at hrow
      cases hrow
  · rw [← h.consistent.childRoot hrow (h.merged.row hloaded).1]
    exact hne

theorem lookup_relinked (key : Identity × Text) :
    (plan.links.foldl relink (tree.moveEntry target entry).entries).lookup key =
      ((tree.moveEntry target entry).recomputed prims).entries.lookup key := by
  have happlies : ∀ link ∈ plan.links, ∃ dataRoot, (tree.moveEntry target entry).entries.lookup
      (link.parentDirectoryId, link.name) = some ⟨.directory link.childDirectoryId dataRoot, link.expectedRevision⟩ := by
    intro link hlink
    obtain ⟨dataRoot, _, hrow, _⟩ := h.moved_link hlink
    exact ⟨dataRoot, hrow⟩
  obtain ⟨hlinked, hkept⟩ := foldl_relink_lookup h.nodup_links happlies
  rw [Tree.recomputed, Table.lookup_mapRows]
  by_cases hmem : key ∈ plan.links.map fun link => (link.parentDirectoryId, link.name)
  · obtain ⟨link, hlink, rfl⟩ := List.mem_map.mp hmem
    obtain ⟨dataRoot, _, hrow, hroot, hne⟩ := h.moved_link hlink
    obtain ⟨below, hbelow, _, _, hlive, _⟩ := h.moved_child hrow
    rw [hlinked link hlink, hrow, Option.map_some]
    dsimp only
    rw [h.recomputedRoot_eq hbelow hlive, RootPlan.rootAfter, hroot, Option.getD_some, Option.elim_some,
      Tree.withChildRoot]
    dsimp only
    rw [if_neg hne]
  · rw [hkept key hmem]
    obtain ⟨directoryId, name⟩ := key
    cases hrow : (tree.moveEntry target entry).entries.lookup (directoryId, name) with
    | none => rfl
    | some row =>
        obtain ⟨content, revision⟩ := row
        cases content with
        | file _ _ _ _ _ => rfl
        | directory child dataRoot =>
            obtain ⟨below, hbelow, _, _, hlive, hsame⟩ := h.moved_child hrow
            obtain ⟨old, hold, _, _, hroot⟩ := Tree.moveEntry_row hbelow
            have hnone : newRootOf plan.directories child = none := by
              rw [Option.eq_none_iff_forall_ne_some]
              intro root hnew
              have hchain : child ∈ (mergeChains source destination).map Prod.fst := by
                by_contra hnot
                rw [h.newRootOf_eq_none hnot] at hnew
                cases hnew
              rw [Tree.moveEntry_entries] at hrow
              split_ifs at hrow
              · rw [Option.some.injEq, EntryRow.mk.injEq] at hrow
                obtain ⟨_, _, _, _, _, _, hnot⟩ := h.child hrow.1
                exact hnot hchain
              · exact hmem (List.mem_map.mpr
                  ⟨_, h.mem_links.mpr ⟨directoryId, name, child, dataRoot, revision, root, hrow, hnew, rfl⟩, rfl⟩)
            rw [Option.map_some]
            dsimp only
            rw [h.recomputedRoot_eq hbelow hlive, RootPlan.rootAfter, hnone, hold, Option.getD_none, Option.elim_some,
              Option.elim_some, Tree.withChildRoot]
            dsimp only
            rw [if_pos (hroot.symm.trans hsame)]

theorem applied : ∃ after, (tree.moveEntry target entry).applyBranches plan.directories plan.links = some after ∧
    after.SameRows ((tree.moveEntry target entry).recomputed prims) := by
  refine ⟨_, Tree.applyBranches_succeeds ?_, h.lookup_updated, h.lookup_relinked⟩
  intro link hlink
  obtain ⟨dataRoot, _, hrow, hroot, hne⟩ := h.moved_link hlink
  obtain ⟨below, hbelow, hparent, hname, hlive, _⟩ := h.moved_child hrow
  obtain ⟨above, habove, hsame⟩ := h.moved_rooted.parent (shapeAt_of_lookup hbelow) hparent
  obtain ⟨upper, hupper, hshape⟩ := lookup_of_shapeAt habove
  obtain ⟨update, hupdate, hid, hnew⟩ := (h.planned.newRootOf_eq_some h.merged.nodup).mp hroot
  obtain ⟨row, hloaded, hrevision, hexpected, _, _⟩ := h.mem_updates hupdate
  rw [hid] at hloaded
  have hrow' := h.lookup_moved_chain (List.mem_map_of_mem hloaded)
  rw [hbelow, (h.merged.row hloaded).1, Option.some.injEq] at hrow'
  dsimp only at hrow'
  rw [← hrow'] at hrevision hexpected
  have hwritten := updateRoots_lookup (h.planned.nodup_directories h.merged.nodup) hupdate (hid ▸ hbelow) hrevision
    hexpected
  rw [hid] at hwritten
  obtain ⟨upper', hupper', hshape'⟩ := Option.map_eq_some_iff.mp
    ((updateRoots_shape plan.directories (tree.moveEntry target entry).directories link.parentDirectoryId).trans
      (congrArg (Option.map DirectoryRow.shape) hupper))
  have hfilesystem : upper'.filesystemId = below.filesystemId := by
    have hupperSame := congrArg DirectoryRow.filesystemId hshape'
    have haboveSame := congrArg DirectoryRow.filesystemId hshape
    exact hupperSame.trans (haboveSame.trans hsame)
  simp only [Tree.directoryEntryMatches, hwritten, hupper']
  simp [hfilesystem, hparent, hname, hnew, hlive]

/-! ### The whole chain is listed -/

/-- The recomputed tree lists every entry with the root its child has after the plan. -/
theorem mem_recomputed_listing {id : Identity} {listed : DirectoryMerkleEntry} :
    listed ∈ ((tree.moveEntry target entry).recomputed prims).listing id ↔
      ∃ name row, (tree.moveEntry target entry).entries.lookup (id, name) = some row ∧
        listed = Tree.relist (plan.rootAfter tree) (row.content.merkle name) := by
  have hsame : ∀ {name row}, (tree.moveEntry target entry).entries.lookup (id, name) = some row →
      ∃ row', ((tree.moveEntry target entry).recomputed prims).entries.lookup (id, name) = some row' ∧
        row'.content.merkle name = Tree.relist (plan.rootAfter tree) (row.content.merkle name) := by
    intro name row hrow
    refine ⟨_, (Table.lookup_mapRows _ _ _).trans (congrArg (Option.map _) hrow), ?_⟩
    obtain ⟨content, revision⟩ := row
    cases content with
    | file _ _ _ _ _ => rfl
    | directory child dataRoot =>
        obtain ⟨below, hbelow, _, _, hlive, _⟩ := h.moved_child hrow
        dsimp only
        rw [h.recomputedRoot_eq hbelow hlive, Option.elim_some, Tree.withChildRoot]
        dsimp only
        split_ifs with hkept
        · simp only [EntryContent.merkle, Tree.relist, hkept]
        · rfl
  rw [Tree.mem_listing]
  constructor
  · rintro ⟨name, row', hrow', rfl⟩
    have hmap := hrow'
    rw [Tree.recomputed, Table.lookup_mapRows, Option.map_eq_some_iff] at hmap
    obtain ⟨row, hrow, _⟩ := hmap
    obtain ⟨other, hother, heq⟩ := hsame hrow
    rw [hother] at hrow'
    cases hrow'
    exact ⟨name, row, hrow, heq⟩
  · rintro ⟨name, row, hrow, rfl⟩
    obtain ⟨row', hrow', heq⟩ := hsame hrow
    exact ⟨name, row', hrow', heq.symm⟩

theorem recomputed_root {id : Identity} {row : DirectoryRow}
    (hrow : (tree.moveEntry target entry).directories.lookup id = some row) (hactive : row.state = .active) :
    directoryMerkleRoot prims (((tree.moveEntry target entry).recomputed prims).listing id) =
      .ok (plan.rootAfter tree id) := by
  have hnodup := ((tree.moveEntry target entry).recomputed prims).nodup_listing id
  have hperm : (((tree.moveEntry target entry).recomputed prims).listing id).Perm
      (((tree.moveEntry target entry).listing id).map (Tree.relist (plan.rootAfter tree))) := by
    refine (List.perm_ext_iff_of_nodup hnodup.of_map (nodup_relisted _ _ _).of_map).mpr fun listed => ?_
    rw [h.mem_recomputed_listing, List.mem_map]
    constructor
    · rintro ⟨name, row, hrow, rfl⟩
      exact ⟨_, Tree.mem_listing.mpr ⟨name, row, hrow, rfl⟩, rfl⟩
    · rintro ⟨_, hmem, rfl⟩
      obtain ⟨name, row, hrow, rfl⟩ := Tree.mem_listing.mp hmem
      exact ⟨name, row, hrow, rfl⟩
  rw [directoryMerkleRoot_perm hnodup hperm, h.moved_roots hrow hactive]

/-- A directory of the chains with another listing has another root, unless the hash collides on the two listings. -/
theorem listed_of_not_perm {loaded : LoadedDirectory} (hmem : loaded ∈ mergeChains source destination)
    (hother : ¬(tree.listing loaded.1).Perm (((tree.moveEntry target entry).recomputed prims).listing loaded.1))
    (hfree : ¬RenameCollides prims tree target entry loaded.1) :
    loaded.1 ∈ plan.directories.map DirectoryUpdate.directoryId := by
  by_contra hnot
  obtain ⟨hrow, _, hactive⟩ := h.merged.row hmem
  have hmoved := (h.lookup_moved_chain (List.mem_map_of_mem hmem)).trans hrow
  have hnone : newRootOf plan.directories loaded.1 = none := by
    rw [Option.eq_none_iff_forall_ne_some]
    intro root hroot
    obtain ⟨update, hupdate, hid, _⟩ := (h.planned.newRootOf_eq_some h.merged.nodup).mp hroot
    exact hnot (hid ▸ List.mem_map_of_mem hupdate)
  have hafter := h.recomputed_root hmoved hactive
  rw [RootPlan.rootAfter, hnone, hrow, Option.getD_none, Option.elim_some] at hafter
  rcases directoryMerkleRoot_binds (h.consistent.roots hrow hactive) hafter with hperm | hcollides
  · exact hother hperm
  · exact hfree hcollides

theorem listed_source (hfree : ¬RenameCollides prims tree target entry target.sourceDirectoryId) :
    target.sourceDirectoryId ∈ plan.directories.map DirectoryUpdate.directoryId := by
  obtain ⟨row, hmem⟩ := h.merged.source
  refine h.listed_of_not_perm hmem ?_ hfree
  intro hperm
  have hname : target.sourceName ∈ (tree.listing target.sourceDirectoryId).map entryName :=
    List.mem_map.mpr ⟨_, Tree.mem_listing.mpr ⟨_, _, h.planned.found, rfl⟩, entryName_merkle _ _⟩
  rw [(hperm.map entryName).mem_iff] at hname
  obtain ⟨listed, hlisted, heq⟩ := List.mem_map.mp hname
  obtain ⟨name, row', hrow', rfl⟩ := h.mem_recomputed_listing.mp hlisted
  rw [Tree.entryName_relist] at heq
  rw [Tree.moveEntry_entries, heq, if_neg h.keys_ne, if_pos rfl] at hrow'
  cases hrow'

theorem listed_destination (hfree : ¬RenameCollides prims tree target entry target.destinationDirectoryId) :
    target.destinationDirectoryId ∈ plan.directories.map DirectoryUpdate.directoryId := by
  obtain ⟨row, hmem⟩ := h.merged.destination
  refine h.listed_of_not_perm hmem ?_ hfree
  intro hperm
  have hentry : (tree.moveEntry target entry).entries.lookup (target.destinationDirectoryId, target.destinationName) =
      some ⟨entry.content, entry.revision + 1⟩ := by
    rw [Tree.moveEntry_entries, if_pos rfl]
  have hname : target.destinationName ∈ (((tree.moveEntry target entry).recomputed prims).listing
      target.destinationDirectoryId).map entryName :=
    List.mem_map.mpr ⟨_, h.mem_recomputed_listing.mpr ⟨_, _, hentry, rfl⟩, Tree.entryName_relist _ _ _⟩
  rw [← (hperm.map entryName).mem_iff] at hname
  obtain ⟨listed, hlisted, heq⟩ := List.mem_map.mp hname
  obtain ⟨name, row', hrow', rfl⟩ := Tree.mem_listing.mp hlisted
  rw [entryName_merkle] at heq
  rw [heq, h.planned.free] at hrow'
  cases hrow'

theorem listed_parent {loaded : LoadedDirectory} (hmem : loaded ∈ mergeChains source destination)
    (hlisted : loaded.1 ∈ plan.directories.map DirectoryUpdate.directoryId) {parentId : Identity}
    (hparent : loaded.2.parentId = some parentId) (hfree : ¬RenameCollides prims tree target entry parentId) :
    parentId ∈ plan.directories.map DirectoryUpdate.directoryId := by
  obtain ⟨above, habove⟩ := h.merged.parent hmem hparent
  obtain ⟨hrow, _, hactive⟩ := h.merged.row hmem
  refine h.listed_of_not_perm habove ?_ hfree
  intro hperm
  obtain ⟨dataRoot, revision, hentry⟩ := h.consistent.linked.entry (shapeAt_of_lookup hrow) hactive hparent
  -- the entry of the listed child is there before and after, with two roots
  obtain ⟨name, found, hfound, heq⟩ := h.mem_recomputed_listing.mp
    (hperm.mem_iff.mp (Tree.mem_listing.mpr ⟨_, _, hentry, rfl⟩))
  have hname := congrArg entryName heq
  rw [entryName_merkle, Tree.entryName_relist] at hname
  obtain ⟨update, hupdate, hid⟩ := List.mem_map.mp hlisted
  obtain ⟨_, _, _, _, hroot, _⟩ := h.mem_updates hupdate
  rw [hid] at hroot
  obtain ⟨dataRoot', hbefore, hmoved, _, hne⟩ := h.moved_link (h.mem_links.mpr ⟨_, _, _, _, _, _, hentry, hroot, rfl⟩)
  rw [← hname, hmoved] at hfound
  cases hfound
  rw [hentry] at hbefore
  cases hbefore
  have hafter : plan.rootAfter tree loaded.1 = update.newRoot := by
    rw [RootPlan.rootAfter, hroot, Option.getD_some]
  simp only [EntryContent.merkle, Tree.relist, hafter, DirectoryMerkleEntry.directory.injEq] at heq
  exact hne heq.2.2.symm

theorem listed_chain (hfree : ∀ id, ¬RenameCollides prims tree target entry id) {id : Identity}
    {chain : List LoadedDirectory} (hchain : AncestorChain tree filesystemId id chain)
    (hrows : ∀ loaded ∈ chain, loaded ∈ mergeChains source destination)
    (hstart : id ∈ plan.directories.map DirectoryUpdate.directoryId) {above : Identity}
    (habove : above ∈ chain.map Prod.fst) : above ∈ plan.directories.map DirectoryUpdate.directoryId := by
  induction hchain with
  | top _ _ _ _ =>
      rw [List.map_singleton, List.mem_singleton] at habove
      rwa [habove]
  | @up id parent row rest hrow _ _ hparent _ ih =>
      rw [List.forall_mem_cons] at hrows
      rw [List.map_cons, List.mem_cons] at habove
      rcases habove with rfl | hrest
      · exact hstart
      · exact ih hrows.2 (h.listed_parent hrows.1 hstart hparent (hfree parent)) hrest

/-! ### Order, root and commit -/

theorem childrenFirst : plan.directories.Pairwise fun earlier later =>
    earlier.directoryId ∉ tree.ancestors later.directoryId := by
  have hnodup := List.pairwise_map.mp (h.planned.nodup_ordered h.merged.nodup)
  rw [h.planned.directories_eq, List.pairwise_filterMap]
  refine (h.planned.deepest.and hnodup).imp_of_mem ?_
  rintro ⟨earlier, _⟩ ⟨later, _⟩ hearlier hlater ⟨hdeep, hne⟩ update hupdate update' hupdate' habove
  rw [levelUpdate_directoryId hupdate, levelUpdate_directoryId hupdate'] at habove
  obtain ⟨⟨found, row⟩, hlineage, hid⟩ := List.mem_map.mp habove
  dsimp only at hid hdeep hne
  subst hid
  obtain ⟨_, steps, hreach⟩ := Table.mem_lineage_iff.mp hlineage
  obtain ⟨rows, hdepth⟩ := h.consistent.rooted.grounded
    (shapeAt_of_lookup (h.merged.row (h.planned.mem_ordered.mp hearlier).1).1)
  have hbelow := hdeep rows _ hdepth (Table.Chain.of_reaches hreach hdepth)
  obtain rfl : steps = 0 := by omega
  exact hne (hreach.functional (.refl (h.merged.row (h.planned.mem_ordered.mp hlater).1).1))

theorem root_eq {id : Identity} {row : DirectoryRow} (hrow : tree.directories.lookup id = some row)
    (hfilesystem : row.filesystemId = filesystemId) (hparent : row.parentId = none) :
    (tree.moveEntry target entry).recomputedRoot prims id = some plan.root := by
  obtain ⟨top, last, hlast, hnone⟩ := h.sourceChain.last
  have hmem : (top, last) ∈ source := List.mem_of_getLast? hlast
  have hchain := (mem_mergeChains h.sourceChain h.destinationChain).mpr (.inl hmem)
  obtain ⟨htop, hsame, hactive⟩ := h.merged.row hchain
  have heq : top = id := h.consistent.rooted.unique (shapeAt_of_lookup htop) (shapeAt_of_lookup hrow) hnone hparent
    (hsame.trans hfilesystem.symm)
  have hroot := h.planned.root
  rw [hlast, Option.bind_some, heq] at hroot
  rw [← heq, h.recomputedRoot_eq ((h.lookup_moved_chain (List.mem_map_of_mem hchain)).trans htop) hactive,
    RootPlan.rootAfter, heq, hroot, Option.getD_some]

theorem committed {batch : RenameBatch} {objects : Objects} {after : Tree} (htarget : batch.target = target)
    (hentry : batch.entry = entry) (hrevision : batch.expectedSourceRevision = expectedSourceRevision)
    (hplan : batch.plan = plan) (hrename : renameTree batch objects tree = some after) :
    after.SameRows ((tree.moveEntry target entry).recomputed prims) := by
  obtain ⟨_, _, directories, hdirectories, _, _, hmatches, rfl⟩ := renameTree_eq_some hrename
  rw [htarget, hentry] at hdirectories
  rw [htarget, hentry, hrevision] at hmatches
  rw [htarget, hentry, hrevision, hplan]
  have hdeleted : (tree.deleteEntry target.sourceDirectoryId target.sourceName expectedSourceRevision).entries =
      tree.entries.erase (target.sourceDirectoryId, target.sourceName) := by
    unfold Tree.deleteEntry
    rw [h.planned.found]
    dsimp only
    rw [if_pos h.planned.revision]
  rw [hdeleted] at hmatches ⊢
  have hmoved : ∀ id, directories.lookup id = (tree.moveEntry target entry).directories.lookup id := by
    intro id
    cases hcontent : entry.content with
    | file _ _ _ _ _ =>
        rw [hcontent] at hdirectories
        cases hdirectories
        simp only [Tree.moveEntry, hcontent]
    | directory child dataRoot =>
        rw [hcontent] at hdirectories hmatches
        obtain ⟨row, hrow, hparent, hname, _⟩ := h.child hcontent
        simp only [Tree.moveEntry, hcontent]
        cases hdirectories with
        | unchanged =>
            -- the row of the child would still stand under its old name
            simp only [Tree.entryMatches, Tree.directoryEntryMatches, hrow] at hmatches
            cases hdestination : tree.directories.lookup target.destinationDirectoryId with
            | none =>
                rw [hdestination] at hmatches
                cases hmatches
            | some above =>
                simp only [hdestination, hparent, hname, Bool.and_eq_true, beq_iff_eq, Option.some.injEq] at hmatches
                exact absurd (Prod.ext hmatches.1.1.1.2 hmatches.1.1.2) h.keys_ne
        | moved hrow' _ _ _ _ _ _ =>
            rw [Table.lookup_insert_eq, Table.lookup_modify]
            split_ifs with hid
            · rw [hid, hrow', Option.map_some]
            · rfl
  constructor
  · intro id
    rw [← h.lookup_updated id]
    exact updateRoots_congr _ hmoved id
  · exact h.lookup_relinked

end Renaming

end Moved

/-! ### What a rename plan does -/

/-- A rename plan takes the tree with the moved entry to the tree with every root recomputed. -/
structure RenamePlanCorrect (prims : Primitives) (tree : Tree) (filesystemId : Identity) (target : RenameTarget)
    (entry : EntryRow) (plan : RootPlan) : Prop where
  computed : ∀ {id row}, (tree.moveEntry target entry).directories.lookup id = some row → row.state = .active →
    ∃ root, (tree.moveEntry target entry).recomputedRoot prims id = some root
  applied : ∃ after, (tree.moveEntry target entry).applyBranches plan.directories plan.links = some after ∧
    after.SameRows ((tree.moveEntry target entry).recomputed prims)
  committed : ∀ {batch objects after}, batch.target = target → batch.entry = entry →
    batch.expectedSourceRevision = entry.revision → batch.plan = plan → renameTree batch objects tree = some after →
      after.SameRows ((tree.moveEntry target entry).recomputed prims)
  once : (plan.directories.map DirectoryUpdate.directoryId).Nodup
  listed : ∀ update ∈ plan.directories, update.directoryId ∈ tree.ancestors target.sourceDirectoryId ∨
    update.directoryId ∈ tree.ancestors target.destinationDirectoryId
  complete : (∀ id, id ∈ tree.ancestors target.sourceDirectoryId ∨ id ∈ tree.ancestors target.destinationDirectoryId →
    id ∈ plan.directories.map DirectoryUpdate.directoryId) ∨ ∃ id, RenameCollides prims tree target entry id
  childrenFirst : plan.directories.Pairwise fun earlier later => earlier.directoryId ∉ tree.ancestors later.directoryId
  links : ∀ link, link ∈ plan.links ↔ ∃ directoryId name child dataRoot revision root,
    tree.entries.lookup (directoryId, name) = some ⟨.directory child dataRoot, revision⟩ ∧
    (tree.moveEntry target entry).recomputedRoot prims child = some root ∧ root ≠ dataRoot ∧
    link = ⟨directoryId, child, name, revision, root⟩
  linkedOnce : (plan.links.map fun link => (link.parentDirectoryId, link.name)).Nodup
  root : ∀ {id row}, tree.directories.lookup id = some row → row.filesystemId = filesystemId → row.parentId = none →
    (tree.moveEntry target entry).recomputedRoot prims id = some plan.root
  acyclic : ∀ {child dataRoot}, entry.content = .directory child dataRoot →
    child ∉ tree.ancestors target.destinationDirectoryId
  rooted : (tree.moveEntry target entry).Rooted

theorem Renaming.correct {prims : Primitives} {tree : Tree} {filesystemId : Identity} {target : RenameTarget}
    {expectedSourceRevision : Nat} {source destination : List LoadedDirectory} {plan : RootPlan} {entry : EntryRow}
    {ordered : List (LoadedDirectory × List StoredEntry)}
    (h : Renaming prims tree filesystemId target expectedSourceRevision source destination plan entry ordered) :
    RenamePlanCorrect prims tree filesystemId target entry plan where
  computed := fun hrow hactive => ⟨_, h.recomputedRoot_eq hrow hactive⟩
  applied := h.applied
  committed := fun htarget hentry hrevision => h.committed htarget hentry (hrevision.trans h.planned.revision)
  once := h.planned.nodup_directories h.merged.nodup
  listed := by
    intro update hupdate
    obtain ⟨row, hmem, _⟩ := h.mem_updates hupdate
    rw [h.sourceChain.mem_ancestors, h.destinationChain.mem_ancestors]
    rcases (mem_mergeChains h.sourceChain h.destinationChain).mp hmem with hmem | hmem
    · exact .inl (List.mem_map_of_mem hmem)
    · exact .inr (List.mem_map_of_mem hmem)
  complete := by
    by_cases hcollides : ∃ id, RenameCollides prims tree target entry id
    · exact .inr hcollides
    rw [not_exists] at hcollides
    left
    rintro id (habove | habove)
    · refine h.listed_chain hcollides h.sourceChain ?_ (h.listed_source (hcollides _))
        (h.sourceChain.mem_ancestors.mp habove)
      exact fun loaded hmem => (mem_mergeChains h.sourceChain h.destinationChain).mpr (.inl hmem)
    · refine h.listed_chain hcollides h.destinationChain ?_ (h.listed_destination (hcollides _))
        (h.destinationChain.mem_ancestors.mp habove)
      exact fun loaded hmem => (mem_mergeChains h.sourceChain h.destinationChain).mpr (.inr hmem)
  childrenFirst := h.childrenFirst
  links := by
    intro link
    constructor
    · intro hlink
      obtain ⟨dataRoot, hbefore, hmoved, hroot, hne⟩ := h.moved_link hlink
      obtain ⟨below, hbelow, _, _, hlive, _⟩ := h.moved_child hmoved
      refine ⟨_, _, _, dataRoot, _, link.newChildRoot, hbefore, ?_, hne, rfl⟩
      rw [h.recomputedRoot_eq hbelow hlive, RootPlan.rootAfter, hroot, Option.getD_some]
    · rintro ⟨directoryId, name, child, dataRoot, revision, root, hentry, hroot, hne, rfl⟩
      obtain ⟨shape, hshape, _, _, hactive⟩ := h.consistent.linked.child hentry
      obtain ⟨row, hrow, rfl⟩ := lookup_of_shapeAt hshape
      obtain ⟨moved, hmoved, hstate⟩ := Tree.moveEntry_row_of_row target entry hrow
      rw [h.recomputedRoot_eq hmoved (hstate.trans hactive), Option.some.injEq, h.rootAfter_child hentry] at hroot
      refine h.mem_links.mpr ⟨directoryId, name, child, dataRoot, revision, root, hentry, ?_, rfl⟩
      cases hnew : newRootOf plan.directories child with
      | none =>
          rw [hnew, Option.getD_none] at hroot
          exact absurd hroot.symm hne
      | some found =>
          rw [hnew, Option.getD_some] at hroot
          rw [hroot]
  linkedOnce := h.nodup_links
  root := h.root_eq
  acyclic := by
    intro child dataRoot hcontent habove
    exact h.planned.acyclic child dataRoot hcontent (h.destinationChain.mem_ancestors.mp habove)
  rooted := h.moved_rooted

/-- On a consistent namespace, a plan of the rename planner moves the entry and recomputes every directory root. -/
theorem planEntryRenameRoots_correct {μ ρ ε ι : Type} {prims : Primitives} {db : Database} {filesystemId : Identity}
    {target : RenameTarget} {expectedSourceRevision : Nat} {plan : RootPlan} (hconsistent : db.tree.Consistent prims)
    (hplan : (planEntryRenameRoots prims filesystemId target expectedSourceRevision : Program Database μ ρ ε ι _).readOn db =
      some (.planned plan)) :
    ∃ entry, db.tree.entries.lookup (target.sourceDirectoryId, target.sourceName) = some entry ∧
      entry.revision = expectedSourceRevision ∧
      db.tree.entries.lookup (target.destinationDirectoryId, target.destinationName) = none ∧
      RenamePlanCorrect prims db.tree filesystemId target entry plan := by
  obtain ⟨source, destination, hsource, hdestination, hrename⟩ := planEntryRenameRoots_eq_planned hplan
  obtain ⟨entry, ordered, hplanned⟩ := planRename_eq_planned hconsistent.linked hsource hdestination hrename
  exact ⟨entry, hplanned.found, hplanned.revision, hplanned.free,
    Renaming.correct ⟨hconsistent, hsource, hdestination, hplanned⟩⟩

namespace Sample

/-- Two directories of the root, created one after the other. -/
def siblings : ControlState := run (complete 0 (createRequest 0 root [97]) ++ complete 1 (createRequest 1 root [98]))

/-- The second directory moves into the first one. -/
def intoSibling : RenameTarget := ⟨root, [98], fresh 1, [99]⟩

/-- The numbers of updates and links of a plan. -/
def counts : Option Planning → Option (Nat × Nat)
  | some (.planned plan) => some (plan.directories.length, plan.links.length)
  | _ => none

theorem counts_eq_some {planning : Option Planning} {updates links : Nat} (h : counts planning = some (updates, links)) :
    ∃ plan, planning = some (.planned plan) ∧ plan.directories.length = updates ∧ plan.links.length = links := by
  unfold counts at h
  split at h
  · rename_i plan
    cases h
    exact ⟨plan, rfl, rfl, rfl⟩
  · cases h

def creates (_ : Moment Database Mutation) : Mutation → Bool
  | .mkdir _ => true
  | _ => false

theorem reachable_siblings :
    Reachable prims (fun moment mutation => creates moment mutation = true) database siblings :=
  reachable_run (fun _ _ hcreates => hcreates) _ (fun _ hmem => by simp [complete, advances] at hmem)
    (by decide +kernel)

theorem entryUnchanged_of_creates (moment : Moment Database Mutation) (mutation : Mutation)
    (hcreates : creates moment mutation = true) : EntryUnchanged moment mutation := by
  cases mutation with
  | mkdir batch => trivial
  | _ => cases hcreates

theorem checked_siblings :
    (siblings.state.tree.entries.entries.all fun found =>
      match found.2.content with
      | .directory child dataRoot => (siblings.state.tree.directories.lookup child).all fun row => row.dataRoot == dataRoot
      | .file _ _ _ _ _ => true) = true ∧
    (siblings.state.tree.directories.entries.all fun found =>
      (directoryMerkleRoot prims (siblings.state.tree.listing found.1)).toOption == some found.2.dataRoot) = true := by
  constructor <;> decide +kernel

theorem consistent_of_checked {tree : Tree} (hrooted : tree.Rooted) (hlinked : tree.Linked)
    (hchecked : (tree.entries.entries.all fun found =>
      match found.2.content with
      | .directory child dataRoot => (tree.directories.lookup child).all fun row => row.dataRoot == dataRoot
      | .file _ _ _ _ _ => true) = true ∧
    (tree.directories.entries.all fun found =>
      (directoryMerkleRoot prims (tree.listing found.1)).toOption == some found.2.dataRoot) = true) :
    tree.Consistent prims where
  rooted := hrooted
  linked := hlinked
  childRoot := by
    intro key child dataRoot revision row hentry hrow
    have hfound := List.all_eq_true.mp hchecked.1 _ (Table.mem_entries_iff.mpr hentry)
    simp only [hrow, Option.all_some, beq_iff_eq] at hfound
    exact hfound
  roots := by
    intro id row hrow _
    have hfound := List.all_eq_true.mp hchecked.2 _ (Table.mem_entries_iff.mpr hrow)
    rw [beq_iff_eq] at hfound
    cases hroot : directoryMerkleRoot prims (tree.listing id) with
    | error error =>
        rw [hroot] at hfound
        cases hfound
    | ok root =>
        rw [hroot] at hfound
        cases hfound
        rfl

theorem consistent_siblings : siblings.state.tree.Consistent prims := by
  have hrooted := rooted_of_reachable bootstrapped_database reachable_siblings
  have hlinked := linked_of_reachable entryUnchanged_of_creates bootstrapped_database reachable_siblings
  exact consistent_of_checked hrooted hlinked checked_siblings

end Sample

theorem planEntryRenameRoots_intoSibling :
    ∃ plan entry, (planEntryRenameRoots Sample.prims Sample.filesystemId Sample.intoSibling 1 :
        Program Database Mutation Bool Effect Answer _).readOn Sample.siblings.state = some (.planned plan) ∧
      plan.directories.length = 2 ∧ plan.links.length = 1 ∧
      RenamePlanCorrect Sample.prims Sample.siblings.state.tree Sample.filesystemId Sample.intoSibling entry plan := by
  have hplan : ∃ plan, (planEntryRenameRoots Sample.prims Sample.filesystemId Sample.intoSibling 1 :
      Program Database Mutation Bool Effect Answer _).readOn Sample.siblings.state = some (.planned plan) ∧
        plan.directories.length = 2 ∧ plan.links.length = 1 := by
    apply Sample.counts_eq_some
    decide +kernel
  obtain ⟨plan, hplanned, hcounts⟩ := hplan
  obtain ⟨entry, _, _, _, hcorrect⟩ := planEntryRenameRoots_correct Sample.consistent_siblings hplanned
  exact ⟨plan, entry, hplanned, hcounts.1, hcounts.2, hcorrect⟩

end Skydriver
