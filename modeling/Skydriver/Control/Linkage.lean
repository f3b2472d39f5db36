import Skydriver.Control.Depth
import Skydriver.Control.Entries

/-!
# How directories hang together

A directory is known twice: its row names its parent, and an entry of the parent names it.  The rows alone form a forest
with one root for each filesystem, in every run.  Rows and entries agree as long as a removal or a rename finds under
the name it acts on the entry that its handler loaded; nothing in the batch makes sure of that.
-/

namespace Skydriver

/-- A removal or a rename finds under its name the very entry that its handler loaded before it planned. -/
def EntryUnchanged (moment : Instant) : Mutation → Prop
  | .remove batch => moment.state.tree.entries.lookup (batch.directoryId, batch.name) = some batch.entry
  | .rename batch =>
      moment.state.tree.entries.lookup (batch.target.sourceDirectoryId, batch.target.sourceName) = some batch.entry
  | _ => True

/-! ### Directory rows -/

/-- What a batch makes of the directory rows, the columns that plans rewrite apart. -/
inductive ShapeChange (tree after : Tree) : Mutation → Prop where
  | unchanged {mutation : Mutation} (hshape : ∀ id, after.shapeAt id = tree.shapeAt id) :
      ShapeChange tree after mutation
  | created {batch : MkdirBatch} {parent : DirectoryRow}
      (hfresh : tree.directories.lookup batch.childDirectoryId = none)
      (hparent : tree.directories.lookup batch.parentDirectoryId = some parent)
      (hfilesystem : parent.filesystemId = batch.filesystemId)
      (hshape : ∀ id, after.shapeAt id =
        if id = batch.childDirectoryId then some (mkdirRow batch).shape else tree.shapeAt id) :
      ShapeChange tree after (.mkdir batch)
  | tombstoned {batch : RemoveBatch} {child : Identity} {dataRoot : Digest} {row : DirectoryRow}
      (hcontent : batch.entry.content = .directory child dataRoot)
      (hrow : tree.directories.lookup child = some row) (hactive : row.state = .active)
      (hshape : ∀ id, after.shapeAt id =
        if id = child then some { row.shape with state := .tombstoned } else tree.shapeAt id) :
      ShapeChange tree after (.remove batch)
  | moved {batch : RenameBatch} {child : Identity} {dataRoot : Digest} {row parent : DirectoryRow}
      (hcontent : batch.entry.content = .directory child dataRoot)
      (hrow : tree.directories.lookup child = some row)
      (hsource : row.parentId = some batch.target.sourceDirectoryId)
      (hname : row.name = batch.target.sourceName) (hactive : row.state = .active)
      (hacyclic : child ∉ tree.ancestors batch.target.destinationDirectoryId)
      (hparent : tree.directories.lookup batch.target.destinationDirectoryId = some parent)
      (hfilesystem : parent.filesystemId = row.filesystemId)
      (hshape : ∀ id, after.shapeAt id =
        if id = child then some (movedRow batch.target row).shape else tree.shapeAt id) :
      ShapeChange tree after (.rename batch)

theorem shapeAt_insert (directories : Table Identity DirectoryRow) (child : Identity) (row : DirectoryRow)
    (entries entries' : Table (Identity × Text) EntryRow) (id : Identity) :
    (Tree.mk (directories.insert child row) entries).shapeAt id =
      if id = child then some row.shape else (Tree.mk directories entries').shapeAt id := by
  unfold Tree.shapeAt
  rw [Table.lookup_insert_eq]
  split_ifs
  · rfl
  · rfl

theorem shapeAt_of_lookup {tree : Tree} {id : Identity} {row : DirectoryRow}
    (h : tree.directories.lookup id = some row) : tree.shapeAt id = some row.shape := by
  rw [Tree.shapeAt, h, Option.map_some]

theorem MkdirCommitted.shapeChange {batch : MkdirBatch} {db after : Database} (h : MkdirCommitted batch db after) :
    ShapeChange db.tree after.tree (.mkdir batch) := by
  obtain ⟨_, _, hchild, _, _, ⟨parent, hparent, hfilesystem⟩, _, _, htree⟩ := mkdirTree_eq_some h.tree
  refine .created hchild hparent hfilesystem ?_
  intro id
  rw [htree, updateRoots_shapeAt _ _ _ db.tree.entries, shapeAt_insert _ _ _ _ db.tree.entries]

theorem RemoveCommitted.shapeChange {batch : RemoveBatch} {db after : Database} (h : RemoveCommitted batch db after) :
    ShapeChange db.tree after.tree (.remove batch) := by
  obtain ⟨_, _, htree⟩ := removeTree_eq_some h.tree
  have hshape : ∀ id, after.tree.shapeAt id =
      ((removedDirectories batch.entry.content db.tree.directories).lookup id).map DirectoryRow.shape := by
    intro id
    rw [htree]
    exact updateRoots_shape _ _ _
  cases hcontent : batch.entry.content with
  | file fileId versionId sizeBytes dataRoot metadataRoot =>
      refine .unchanged fun id => ?_
      rw [hshape, hcontent]
      rfl
  | directory child dataRoot =>
      rw [hcontent] at hshape
      simp only [removedDirectories, Table.lookup_modify] at hshape
      cases hrow : db.tree.directories.lookup child with
      | none =>
          refine .unchanged fun id => ?_
          rw [hshape]
          split_ifs with hid
          · rw [Tree.shapeAt, hid, hrow]
            rfl
          · rfl
      | some row =>
          by_cases hactive : row.state = .active
          · refine .tombstoned hcontent hrow hactive fun id => ?_
            rw [hshape]
            by_cases hid : id = child
            · rw [if_pos hid, if_pos hid, hid, hrow, Option.map_some, Option.map_some, if_pos hactive]
              rfl
            · rw [if_neg hid, if_neg hid]
              rfl
          · refine .unchanged fun id => ?_
            rw [hshape]
            by_cases hid : id = child
            · rw [if_pos hid, hid, hrow, Option.map_some, Option.map_some, if_neg hactive, shapeAt_of_lookup hrow]
            · rw [if_neg hid]
              rfl

theorem RenameCommitted.shapeChange {batch : RenameBatch} {db after : Database} (h : RenameCommitted batch db after) :
    ShapeChange db.tree after.tree (.rename batch) := by
  obtain ⟨_, _, directories, hmove, _, _, _, htree⟩ := renameTree_eq_some h.tree
  have hshape : ∀ id, after.tree.shapeAt id = (Tree.mk directories db.tree.entries).shapeAt id := by
    intro id
    rw [htree]
    exact updateRoots_shapeAt _ _ _ _ _
  generalize hcontent : batch.entry.content = content at hmove
  cases hmove with
  | file => exact .unchanged hshape
  | unchanged => exact .unchanged hshape
  | moved hrow hsource hname hactive hacyclic _ hdestination =>
      obtain ⟨parent, hparent, hfilesystem⟩ := hdestination
      refine .moved hcontent hrow hsource hname hactive hacyclic hparent hfilesystem ?_
      intro id
      rw [hshape, shapeAt_insert _ _ _ _ db.tree.entries]

theorem Committed.shapeChange {db after : Database} {mutation : Mutation} (h : Committed db after mutation) :
    ShapeChange db.tree after.tree mutation := by
  rcases h.tree_cases with ⟨batch, intent, rfl, hput⟩ | ⟨batch, rfl, hmkdir⟩ | ⟨batch, rfl, hremove⟩ |
    ⟨batch, rfl, hrename⟩ | ⟨_, hsame⟩
  · exact .unchanged hput.shapeAt
  · exact hmkdir.shapeChange
  · exact hremove.shapeChange
  · exact hrename.shapeChange
  · exact .unchanged fun id => by rw [hsame]

/-! ### The forest of rows -/

/-- Every directory lies below the one root of its filesystem. -/
structure Tree.Rooted (tree : Tree) : Prop where
  parent : ∀ {id row parentId}, tree.shapeAt id = some row → row.parentId = some parentId →
    ∃ above, tree.shapeAt parentId = some above ∧ above.filesystemId = row.filesystemId
  grounded : ∀ {id row}, tree.shapeAt id = some row → ∃ rows, tree.Depth id rows
  unique : ∀ {id id' row row'}, tree.shapeAt id = some row → tree.shapeAt id' = some row' → row.parentId = none →
    row'.parentId = none → row.filesystemId = row'.filesystemId → id = id'

theorem lookup_of_shapeAt {tree : Tree} {id : Identity} {shape : DirectoryRow} (h : tree.shapeAt id = some shape) :
    ∃ row, tree.directories.lookup id = some row ∧ row.shape = shape :=
  Option.map_eq_some_iff.mp h

theorem Tree.Rooted.reaches_root {tree : Tree} (h : tree.Rooted) {id : Identity} {rows : Nat}
    (hdepth : tree.Depth id rows) {row : DirectoryRow} (hrow : tree.directories.lookup id = some row) :
    ∃ root top steps, tree.directories.Reaches DirectoryRow.parentId steps id root ∧
      tree.directories.lookup root = some top ∧ top.parentId = none ∧ top.filesystemId = row.filesystemId := by
  induction hdepth generalizing row with
  | top hfound hnone =>
      rw [hfound] at hrow
      cases hrow
      exact ⟨_, _, 0, .refl hfound, hfound, hnone, rfl⟩
  | up hfound hparent _ ih =>
      rw [hfound] at hrow
      cases hrow
      obtain ⟨shape, hshape, hfilesystem⟩ := h.parent (shapeAt_of_lookup hfound) hparent
      obtain ⟨above, habove, rfl⟩ := lookup_of_shapeAt hshape
      obtain ⟨root, top, steps, hreach, htop, hnone, hsame⟩ := ih habove
      exact ⟨root, top, steps + 1, .step hfound hparent hreach, htop, hnone, hsame.trans hfilesystem⟩

theorem Tree.Depth.kept {tree after : Tree} {id : Identity} {rows : Nat} (h : tree.Depth id rows)
    (hparents : ∀ met row, tree.shapeAt met = some row →
      ∃ row', after.shapeAt met = some row' ∧ row'.parentId = row.parentId) : after.Depth id rows := by
  apply h.transfer
  intro met row _ hrow
  obtain ⟨shape, hshape, hparent⟩ := hparents met _ (shapeAt_of_lookup hrow)
  obtain ⟨row', hrow', rfl⟩ := lookup_of_shapeAt hshape
  exact ⟨row', hrow', hparent⟩

theorem Tree.Rooted.of_parents {tree after : Tree} (h : tree.Rooted)
    (hforward : ∀ id row, tree.shapeAt id = some row → ∃ row', after.shapeAt id = some row' ∧
      row'.parentId = row.parentId ∧ row'.filesystemId = row.filesystemId)
    (hback : ∀ id row', after.shapeAt id = some row' → ∃ row, tree.shapeAt id = some row ∧
      row'.parentId = row.parentId ∧ row'.filesystemId = row.filesystemId) : after.Rooted where
  parent := by
    intro id row' parentId hrow' hparent
    obtain ⟨row, hrow, hsame, hfilesystem⟩ := hback id row' hrow'
    obtain ⟨above, habove, heq⟩ := h.parent hrow (hsame ▸ hparent)
    obtain ⟨above', habove', _, heq'⟩ := hforward _ above habove
    exact ⟨above', habove', by rw [heq', heq, hfilesystem]⟩
  grounded := by
    intro id row' hrow'
    obtain ⟨row, hrow, _⟩ := hback id row' hrow'
    obtain ⟨rows, hdepth⟩ := h.grounded hrow
    refine ⟨rows, hdepth.kept fun met row hmet => ?_⟩
    obtain ⟨found, hfound, hparent, _⟩ := hforward met row hmet
    exact ⟨found, hfound, hparent⟩
  unique := by
    intro id id' row row' hrow hrow' hnone hnone' hfilesystem
    obtain ⟨old, hold, hparent, heq⟩ := hback id row hrow
    obtain ⟨old', hold', hparent', heq'⟩ := hback id' row' hrow'
    exact h.unique hold hold' (hparent ▸ hnone) (hparent' ▸ hnone') (by rw [← heq, ← heq', hfilesystem])

theorem Tree.Rooted.created {tree after : Tree} (h : tree.Rooted) {child parentId : Identity}
    {row parent : DirectoryRow} (hfresh : tree.directories.lookup child = none)
    (hparent : tree.directories.lookup parentId = some parent) (hbelow : row.parentId = some parentId)
    (hfilesystem : parent.filesystemId = row.filesystemId)
    (hshape : ∀ id, after.shapeAt id = if id = child then some row.shape else tree.shapeAt id) : after.Rooted := by
  have hold : ∀ id found, tree.shapeAt id = some found → after.shapeAt id = some found := by
    intro id found hfound
    rw [hshape, if_neg, hfound]
    rintro rfl
    rw [Tree.shapeAt, hfresh] at hfound
    cases hfound
  have hkept : ∀ {id rows}, tree.Depth id rows → after.Depth id rows := fun hdepth =>
    hdepth.kept fun met found hfound => ⟨found, hold met found hfound, rfl⟩
  have habove := shapeAt_of_lookup hparent
  constructor
  · intro id found above hfound hup
    rw [hshape] at hfound
    split_ifs at hfound
    · cases hfound
      rw [show row.shape.parentId = row.parentId from rfl, hbelow] at hup
      cases hup
      exact ⟨_, hold _ _ habove, hfilesystem⟩
    · obtain ⟨next, hnext, heq⟩ := h.parent hfound hup
      exact ⟨next, hold _ _ hnext, heq⟩
  · intro id found hfound
    rw [hshape] at hfound
    split_ifs at hfound with hid
    · obtain ⟨rows, hdepth⟩ := h.grounded habove
      obtain ⟨new, hnew, heq⟩ := lookup_of_shapeAt (show after.shapeAt child = some row.shape by rw [hshape, if_pos rfl])
      exact ⟨rows + 1, hid ▸ .up hnew ((shape_parentId heq).trans hbelow) (hkept hdepth)⟩
    · obtain ⟨rows, hdepth⟩ := h.grounded hfound
      exact ⟨rows, hkept hdepth⟩
  · intro id id' found found' hfound hfound' hnone hnone' heq
    rw [hshape] at hfound hfound'
    split_ifs at hfound hfound'
    · cases hfound
      rw [show row.shape.parentId = row.parentId from rfl, hbelow] at hnone
      cases hnone
    · cases hfound
      rw [show row.shape.parentId = row.parentId from rfl, hbelow] at hnone
      cases hnone
    · cases hfound'
      rw [show row.shape.parentId = row.parentId from rfl, hbelow] at hnone'
      cases hnone'
    · exact h.unique hfound hfound' hnone hnone' heq

theorem Tree.Rooted.moved {tree after : Tree} (h : tree.Rooted) {child : Identity} {target : RenameTarget}
    {row parent : DirectoryRow} (hrow : tree.directories.lookup child = some row)
    (hacyclic : child ∉ tree.ancestors target.destinationDirectoryId)
    (hparent : tree.directories.lookup target.destinationDirectoryId = some parent)
    (hfilesystem : parent.filesystemId = row.filesystemId)
    (hshape : ∀ id, after.shapeAt id = if id = child then some (movedRow target row).shape else tree.shapeAt id) :
    after.Rooted := by
  have hother : ∀ key found, key ≠ child → tree.directories.lookup key = some found →
      ∃ found', after.directories.lookup key = some found' ∧ found'.parentId = found.parentId := by
    intro key found hkey hfound
    obtain ⟨found', hfound', heq⟩ := lookup_of_shapeAt
      (show after.shapeAt key = some found.shape by rw [hshape, if_neg hkey, shapeAt_of_lookup hfound])
    exact ⟨found', hfound', shape_parentId heq⟩
  have hstays : ∀ key found, tree.shapeAt key = some found →
      ∃ found', after.shapeAt key = some found' ∧ found'.filesystemId = found.filesystemId := by
    intro key found hfound
    by_cases hkey : key = child
    · rw [hkey, shapeAt_of_lookup hrow] at hfound
      cases hfound
      exact ⟨_, (hshape key).trans (if_pos hkey), rfl⟩
    · exact ⟨found, by rw [hshape, if_neg hkey, hfound], rfl⟩
  obtain ⟨new, hnew, heq⟩ := lookup_of_shapeAt
    (show after.shapeAt child = some (movedRow target row).shape by rw [hshape, if_pos rfl])
  have hnewParent : new.parentId = some target.destinationDirectoryId := shape_parentId heq
  constructor
  · intro id found above hfound hup
    rw [hshape] at hfound
    split_ifs at hfound
    · cases hfound
      cases hup
      obtain ⟨found', hfound', heq'⟩ := hstays _ _ (shapeAt_of_lookup hparent)
      exact ⟨found', hfound', heq'.trans hfilesystem⟩
    · obtain ⟨next, hnext, hsame⟩ := h.parent hfound hup
      obtain ⟨next', hnext', heq'⟩ := hstays _ _ hnext
      exact ⟨next', hnext', heq'.trans hsame⟩
  · intro id found hfound
    obtain ⟨height, hheight⟩ := h.grounded (shapeAt_of_lookup hparent)
    -- the chain of the destination avoids the moved directory, so the move leaves it alone
    have htarget : after.Depth target.destinationDirectoryId height := by
      apply hheight.transfer
      intro met other hmet hother'
      apply hother met other _ hother'
      rintro rfl
      obtain ⟨steps, hmet⟩ := hmet
      exact hacyclic (List.mem_map.mpr ⟨(met, row), Table.mem_lineage_iff.mpr ⟨hrow, steps, hmet⟩, rfl⟩)
    have hold : ∃ old, tree.shapeAt id = some old := by
      rw [hshape] at hfound
      split_ifs at hfound with hid
      · exact ⟨_, hid ▸ shapeAt_of_lookup hrow⟩
      · exact ⟨found, hfound⟩
    obtain ⟨old, hold⟩ := hold
    obtain ⟨rows, hdepth⟩ := h.grounded hold
    rcases Table.Chain.graft hother hnew hnewParent htarget hdepth with ⟨steps, _, hchain⟩ | hchain
    · exact ⟨_, hchain⟩
    · exact ⟨_, hchain⟩
  · intro id id' found found' hfound hfound' hnone hnone' hsame
    rw [hshape] at hfound hfound'
    split_ifs at hfound hfound'
    · cases hfound
      cases hnone
    · cases hfound
      cases hnone
    · cases hfound'
      cases hnone'
    · exact h.unique hfound hfound' hnone hnone' hsame

theorem ShapeChange.rooted {tree after : Tree} {mutation : Mutation} (h : ShapeChange tree after mutation)
    (hrooted : tree.Rooted) : after.Rooted := by
  cases h with
  | unchanged hshape =>
      exact hrooted.of_parents (fun id row hrow => ⟨row, (hshape id).trans hrow, rfl, rfl⟩)
        fun id row hrow => ⟨row, (hshape id).symm.trans hrow, rfl, rfl⟩
  | created hfresh hparent hfilesystem hshape => exact hrooted.created hfresh hparent rfl hfilesystem hshape
  | @tombstoned _ child _ found _ hfound _ hshape =>
      apply hrooted.of_parents
      · intro id row hrow
        by_cases hid : id = child
        · rw [hid, shapeAt_of_lookup hfound] at hrow
          cases hrow
          exact ⟨_, (hshape id).trans (if_pos hid), rfl, rfl⟩
        · exact ⟨row, by rw [hshape, if_neg hid, hrow], rfl, rfl⟩
      · intro id row hrow
        rw [hshape] at hrow
        split_ifs at hrow with hid
        · cases hrow
          exact ⟨found.shape, hid ▸ shapeAt_of_lookup hfound, rfl, rfl⟩
        · exact ⟨row, hrow, rfl, rfl⟩
  | moved _ hrow _ _ _ hacyclic hparent hfilesystem hshape =>
      exact hrooted.moved hrow hacyclic hparent hfilesystem hshape

/-! ### Entries after a batch -/

theorem Committed.entry_written {db after : Database} {mutation : Mutation} (h : Committed db after mutation)
    (hexist : VersionsExist db) {key : Identity × Text} {written : EntryRow}
    (hwritten : writtenEntry db mutation = some (key, written)) :
    ∃ row, after.tree.entries.lookup key = some row ∧ written.Relinked row := by
  rcases h.tree_cases with ⟨batch, intent, rfl, hput⟩ | ⟨batch, rfl, hmkdir⟩ | ⟨batch, rfl, _⟩ |
    ⟨batch, rfl, hrename⟩ | ⟨hother, _⟩
  · rw [writtenEntry, hput.found, Option.map_some] at hwritten
    cases hwritten
    obtain ⟨⟨links, htree⟩, _⟩ := hput.entries hexist
    rw [htree]
    exact relinks_of_some links (AList.lookup_insert _)
  · obtain ⟨_, _, _, _, _, _, _, _, htree⟩ := mkdirTree_eq_some hmkdir.tree
    cases hwritten
    rw [htree]
    exact relinks_of_some _ (AList.lookup_insert _)
  · cases hwritten
  · obtain ⟨_, _, _, _, _, _, _, htree⟩ := renameTree_eq_some hrename.tree
    cases hwritten
    rw [htree]
    exact relinks_of_some _ (AList.lookup_insert _)
  · rw [onNamespace_of_writtenEntry hwritten] at hother
    cases hother

/-- A removal statement that finds the revision it expects deletes the row, and it deletes nothing else. -/
theorem Tree.deleteEntry_lookup_kept (directoryId : Identity) (name : Text) (revision : Nat) {tree : Tree}
    {key : Identity × Text} {row : EntryRow} (h : tree.entries.lookup key = some row) :
    (key = (directoryId, name) ∧ row.revision = revision) ∨
      (tree.deleteEntry directoryId name revision).entries.lookup key = some row := by
  rw [Tree.deleteEntry_lookup, h, Option.any_some]
  split_ifs with hmatch
  · exact .inl ⟨hmatch.1, beq_iff_eq.mp hmatch.2⟩
  · exact .inr rfl

/-- An entry survives a batch, with links applied, unless the batch deletes it or writes a newer version of its
file. -/
theorem Committed.entry_persists {db after : Database} {mutation : Mutation} (h : Committed db after mutation)
    (hexist : VersionsExist db) {key : Identity × Text} {old : EntryRow} (hold : db.tree.entries.lookup key = some old) :
    deletedName mutation = some (key, old.revision) ∨
      (∃ batch intent versionId sizeBytes dataRoot metadataRoot, mutation = .putCommit batch ∧
        db.journal.putIntents.lookup batch.intentId = some intent ∧ key = (intent.directoryId, intent.entryName) ∧
        old = ⟨.file intent.fileId versionId sizeBytes dataRoot metadataRoot, intent.expectedEntryRevision⟩) ∨
      ∃ new, after.tree.entries.lookup key = some new ∧ old.Relinked new := by
  rcases h.tree_cases with ⟨batch, intent, rfl, hput⟩ | ⟨batch, rfl, hmkdir⟩ | ⟨batch, rfl, hremove⟩ |
    ⟨batch, rfl, hrename⟩ | ⟨_, hsame⟩
  · obtain ⟨⟨links, htree⟩, hbefore⟩ := hput.entries hexist
    by_cases hkey : key = (intent.directoryId, intent.entryName)
    · rcases hbefore with ⟨_, hnone⟩ | ⟨_, versionId, sizeBytes, dataRoot, metadataRoot, hfound⟩
      · rw [hkey, hnone] at hold
        cases hold
      · rw [hkey, hfound] at hold
        cases hold
        exact .inr (.inl ⟨batch, intent, versionId, sizeBytes, dataRoot, metadataRoot, rfl, hput.found, hkey, rfl⟩)
    · rw [htree]
      exact .inr (.inr (relinks_of_some links (by rw [AList.lookup_insert_ne hkey, hold])))
  · obtain ⟨_, _, _, _, _, _, hnone, _, htree⟩ := mkdirTree_eq_some hmkdir.tree
    rw [htree]
    refine .inr (.inr (relinks_of_some _ ?_))
    rw [AList.lookup_insert_ne, hold]
    rintro rfl
    rw [hnone] at hold
    cases hold
  · obtain ⟨_, _, htree⟩ := removeTree_eq_some hremove.tree
    rcases Tree.deleteEntry_lookup_kept batch.directoryId batch.name batch.expectedEntryRevision hold with ⟨hkey, hrevision⟩ | hkept
    · exact .inl (by rw [deletedName, hkey, ← hrevision])
    · rw [htree]
      exact .inr (.inr (relinks_of_some _ hkept))
  · obtain ⟨_, _, _, _, hnone, _, _, htree⟩ := renameTree_eq_some hrename.tree
    rcases Tree.deleteEntry_lookup_kept batch.target.sourceDirectoryId batch.target.sourceName
        batch.expectedSourceRevision hold with ⟨hkey, hrevision⟩ | hkept
    · exact .inl (by rw [deletedName, hkey, ← hrevision])
    · rw [htree]
      refine .inr (.inr (relinks_of_some _ ?_))
      rw [AList.lookup_insert_ne, hkept]
      rintro rfl
      rw [hnone] at hkept
      cases hkept
  · rw [hsame]
    exact .inr (.inr ⟨old, hold, .inl rfl⟩)

theorem Committed.written_subject {db after : Database} {mutation : Mutation} (h : Committed db after mutation)
    (hexist : VersionsExist db) (hunique : SubjectsUnique db) {key key' : Identity × Text} {written old : EntryRow}
    (hwritten : writtenEntry db mutation = some (key, written)) (hold : db.tree.entries.lookup key' = some old)
    (hkept : deletedName mutation ≠ some (key', old.revision))
    (hsame : old.content.sameSubject written.content = true) : key' = key := by
  have hdiffers : ∀ {content : EntryContent}, content.sameSubject written.content = false →
      content.sameSubject written.content = true → key' = key := by
    intro content hfalse htrue
    rw [hfalse] at htrue
    cases htrue
  rcases h.tree_cases with ⟨batch, intent, rfl, hput⟩ | ⟨batch, rfl, hmkdir⟩ | ⟨batch, rfl, _⟩ |
    ⟨batch, rfl, hrename⟩ | ⟨hother, _⟩
  · rw [writtenEntry, hput.found, Option.map_some] at hwritten
    cases hwritten
    rcases (hput.entries hexist).2 with ⟨hfresh, _⟩ | ⟨_, versionId, sizeBytes, dataRoot, metadataRoot, hfound⟩
    · obtain ⟨_, _, entries, hentries, _⟩ := putTree_eq_some hput.tree
      cases hentries with
      | inserted _ _ hsubject _ => exact hdiffers (hsubject key' old hold) hsame
      | replaced hexisting _ _ => exact absurd hfresh hexisting
      | unchanged hexisting => exact absurd hfresh hexisting
    · apply hunique key' _ old _ hold hfound
      rw [EntryContent.sameSubject_comm, ← hsame, EntryContent.sameSubject_comm old.content]
      cases old.content with
      | file _ _ _ _ _ => rfl
      | directory _ _ => rfl
  · obtain ⟨_, _, _, _, _, _, _, hsubject, _⟩ := mkdirTree_eq_some hmkdir.tree
    cases hwritten
    exact hdiffers (hsubject key' old hold) hsame
  · cases hwritten
  · obtain ⟨_, _, _, _, _, hsubject, _, _⟩ := renameTree_eq_some hrename.tree
    cases hwritten
    rcases Tree.deleteEntry_lookup_kept batch.target.sourceDirectoryId batch.target.sourceName
        batch.expectedSourceRevision hold with ⟨hkey, hrevision⟩ | hstays
    · exact absurd (by rw [deletedName, hkey, ← hrevision]) hkept
    · exact hdiffers (hsubject key' old hstays) hsame
  · rw [onNamespace_of_writtenEntry hwritten] at hother
    cases hother

theorem Committed.subjectsUnique {db after : Database} {mutation : Mutation} (h : Committed db after mutation)
    (hexist : VersionsExist db) (hunique : SubjectsUnique db) : SubjectsUnique after := by
  intro key key' row row' hrow hrow' hsame
  rcases h.entry_cases hexist hrow with ⟨written, hwritten, hlinked⟩ | ⟨old, hold, hlinked, _, hkept⟩
  · rcases h.entry_cases hexist hrow' with ⟨written', hwritten', _⟩ | ⟨old', hold', hlinked', _, hkept'⟩
    · rw [hwritten] at hwritten'
      cases hwritten'
      rfl
    · refine (h.written_subject hexist hunique hwritten hold' (fun hdeleted => hkept' _ hdeleted rfl) ?_).symm
      rw [← hlinked'.sameSubject, EntryContent.sameSubject_comm, ← hlinked.sameSubject]
      exact hsame
  · rcases h.entry_cases hexist hrow' with ⟨written', hwritten', hlinked'⟩ | ⟨old', hold', hlinked', _, _⟩
    · refine h.written_subject hexist hunique hwritten' hold (fun hdeleted => hkept _ hdeleted rfl) ?_
      rw [← hlinked.sameSubject, EntryContent.sameSubject_comm, ← hlinked'.sameSubject,
        EntryContent.sameSubject_comm]
      exact hsame
    · apply hunique key key' old old' hold hold'
      rw [← hlinked.sameSubject, EntryContent.sameSubject_comm, ← hlinked'.sameSubject,
        EntryContent.sameSubject_comm]
      exact hsame

/-! ### Rows and entries agree -/

/-- Each entry of a directory names an active child of it, and each active directory below another has its entry
there. -/
structure Tree.Linked (tree : Tree) : Prop where
  child : ∀ {directoryId name childId dataRoot revision},
    tree.entries.lookup (directoryId, name) = some ⟨.directory childId dataRoot, revision⟩ →
      ∃ row, tree.shapeAt childId = some row ∧ row.parentId = some directoryId ∧ row.name = name ∧ row.state = .active
  entry : ∀ {id row parentId}, tree.shapeAt id = some row → row.state = .active → row.parentId = some parentId →
    ∃ dataRoot revision, tree.entries.lookup (parentId, row.name) = some ⟨.directory id dataRoot, revision⟩

theorem EntryRow.Relinked.directory {old new : EntryRow} (h : old.Relinked new) {child : Identity} {dataRoot : Digest}
    (hold : old.content = .directory child dataRoot) : ∃ dataRoot', new.content = .directory child dataRoot' := by
  rcases h with rfl | ⟨child', _, dataRoot', hold', hnew, _⟩
  · exact ⟨dataRoot, hold⟩
  · rw [hold] at hold'
    cases hold'
    exact ⟨dataRoot', hnew⟩

theorem EntryRow.Relinked.directory_old {old new : EntryRow} (h : old.Relinked new) {child : Identity}
    {dataRoot : Digest} (hnew : new.content = .directory child dataRoot) :
    ∃ dataRoot', old.content = .directory child dataRoot' := by
  rcases h with rfl | ⟨child', dataRoot', _, hold, hnew', _⟩
  · exact ⟨dataRoot, hnew⟩
  · rw [hnew] at hnew'
    cases hnew'
    exact ⟨dataRoot', hold⟩

section Linked

variable {db after : Database} {mutation : Mutation}

theorem Committed.child_origin (h : Committed db after mutation) (hexist : VersionsExist db) {key : Identity × Text}
    {child : Identity} {dataRoot : Digest} {revision : Nat}
    (hrow : after.tree.entries.lookup key = some ⟨.directory child dataRoot, revision⟩) :
    (∃ dataRoot' revision', writtenEntry db mutation = some (key, ⟨.directory child dataRoot', revision'⟩)) ∨
      ∃ dataRoot' revision', db.tree.entries.lookup key = some ⟨.directory child dataRoot', revision'⟩ ∧
        deletedName mutation ≠ some (key, revision') := by
  rcases h.entry_cases hexist hrow with ⟨⟨content, revision'⟩, hwritten, hlinked⟩ |
    ⟨⟨content, revision'⟩, hold, hlinked, _, hkept⟩
  · obtain ⟨dataRoot', rfl⟩ := hlinked.directory_old rfl
    exact .inl ⟨dataRoot', revision', hwritten⟩
  · obtain ⟨dataRoot', rfl⟩ := hlinked.directory_old rfl
    exact .inr ⟨dataRoot', revision', hold, fun hdeleted => hkept _ hdeleted rfl⟩

theorem Committed.child_persists (h : Committed db after mutation) (hexist : VersionsExist db) {key : Identity × Text}
    {child : Identity} {dataRoot : Digest} {revision : Nat}
    (hold : db.tree.entries.lookup key = some ⟨.directory child dataRoot, revision⟩)
    (hkept : deletedName mutation ≠ some (key, revision)) :
    ∃ dataRoot' revision', after.tree.entries.lookup key = some ⟨.directory child dataRoot', revision'⟩ := by
  rcases h.entry_persists hexist hold with hdeleted | ⟨_, _, _, _, _, _, _, _, _, hfile⟩ |
    ⟨⟨content, revision'⟩, hnew, hlinked⟩
  · exact absurd hdeleted hkept
  · cases hfile
  · obtain ⟨dataRoot', rfl⟩ := hlinked.directory rfl
    exact ⟨dataRoot', revision', hnew⟩

theorem Committed.child_written (h : Committed db after mutation) (hexist : VersionsExist db) {key : Identity × Text}
    {child : Identity} {dataRoot : Digest} {revision : Nat}
    (hwritten : writtenEntry db mutation = some (key, ⟨.directory child dataRoot, revision⟩)) :
    ∃ dataRoot' revision', after.tree.entries.lookup key = some ⟨.directory child dataRoot', revision'⟩ := by
  obtain ⟨⟨content, revision'⟩, hnew, hlinked⟩ := h.entry_written hexist hwritten
  obtain ⟨dataRoot', rfl⟩ := hlinked.directory rfl
  exact ⟨dataRoot', revision', hnew⟩

theorem RemoveCommitted.source_gone {batch : RemoveBatch} (h : RemoveCommitted batch db after) :
    after.tree.entries.lookup (batch.directoryId, batch.name) = none := by
  have hproof := (removeTree_eq_some h.tree).2.1
  simp only [removeProofApplied, Bool.and_eq_true, Option.isNone_iff_eq_none] at hproof
  exact hproof.1.2

theorem RemoveCommitted.child_tombstoned {batch : RemoveBatch} (h : RemoveCommitted batch db after) {child : Identity}
    {dataRoot : Digest} (hcontent : batch.entry.content = .directory child dataRoot) :
    ∃ row, after.tree.shapeAt child = some row ∧ row.state = .tombstoned := by
  have hproof := (removeTree_eq_some h.tree).2.1
  simp only [removeProofApplied, hcontent, Bool.and_eq_true, Option.any_eq_true, beq_iff_eq] at hproof
  obtain ⟨row, hrow, hstate⟩ := hproof.2.1
  exact ⟨row.shape, shapeAt_of_lookup hrow, hstate⟩

theorem RenameCommitted.source_gone {batch : RenameBatch} (h : RenameCommitted batch db after) :
    after.tree.entries.lookup (batch.target.sourceDirectoryId, batch.target.sourceName) = none := by
  have hproof := (renameTree_eq_some h.tree).2.1
  simp only [renameProofApplied, Bool.and_eq_true, Option.isNone_iff_eq_none] at hproof
  exact hproof.1.2

theorem RenameCommitted.child_arrived {batch : RenameBatch} (h : RenameCommitted batch db after) {child : Identity}
    {dataRoot : Digest} (hcontent : batch.entry.content = .directory child dataRoot) :
    ∃ row, after.tree.shapeAt child = some row ∧ row.parentId = some batch.target.destinationDirectoryId ∧
      row.name = batch.target.destinationName ∧ row.state = .active := by
  obtain ⟨_, _, directories, _, _, _, hmatches, htree⟩ := renameTree_eq_some h.tree
  simp only [hcontent, Tree.entryMatches, Tree.directoryEntryMatches] at hmatches
  cases hrow : directories.lookup child with
  | none =>
      rw [hrow] at hmatches
      cases hmatches
  | some row =>
      rw [hrow] at hmatches
      cases hparent : directories.lookup batch.target.destinationDirectoryId with
      | none =>
          rw [hparent] at hmatches
          cases hmatches
      | some parent =>
          rw [hparent] at hmatches
          simp only [Bool.and_eq_true, beq_iff_eq] at hmatches
          refine ⟨row.shape, ?_, hmatches.1.1.1.2, hmatches.1.1.2, hmatches.2⟩
          rw [htree, updateRoots_shapeAt _ _ _ db.tree.entries, Tree.shapeAt, hrow, Option.map_some]

theorem EntryUnchanged.subject {moment : Instant} {key : Identity × Text} {revision expected : Nat} {child : Identity}
    {dataRoot : Digest} (hunchanged : EntryUnchanged moment mutation)
    (hdeleted : deletedName mutation = some (key, expected))
    (hold : moment.state.tree.entries.lookup key = some ⟨.directory child dataRoot, revision⟩) :
    (∃ batch, mutation = .remove batch ∧ batch.entry.content = .directory child dataRoot) ∨
      ∃ batch, mutation = .rename batch ∧ batch.entry.content = .directory child dataRoot := by
  cases mutation with
  | remove batch =>
      cases hdeleted
      rw [EntryUnchanged, hold] at hunchanged
      exact .inl ⟨batch, rfl, by rw [← Option.some.inj hunchanged]⟩
  | rename batch =>
      cases hdeleted
      rw [EntryUnchanged, hold] at hunchanged
      exact .inr ⟨batch, rfl, by rw [← Option.some.inj hunchanged]⟩
  | _ => cases hdeleted

theorem Committed.of_remove {batch : RemoveBatch} (h : Committed db after (.remove batch)) :
    RemoveCommitted batch db after := by
  cases h with
  | remove h => exact h
  | task _ htask _ _ => cases htask

theorem Committed.of_rename {batch : RenameBatch} (h : Committed db after (.rename batch)) :
    RenameCommitted batch db after := by
  cases h with
  | rename h => exact h
  | task _ htask _ _ => cases htask

theorem Committed.written_child (h : Committed db after mutation) {key : Identity × Text} {child : Identity}
    {dataRoot : Digest} {revision : Nat}
    (hwritten : writtenEntry db mutation = some (key, ⟨.directory child dataRoot, revision⟩)) :
    ∃ row, after.tree.shapeAt child = some row ∧ row.parentId = some key.1 ∧ row.name = key.2 ∧
      row.state = .active := by
  rcases h.tree_cases with ⟨batch, intent, rfl, hput⟩ | ⟨batch, rfl, hmkdir⟩ | ⟨batch, rfl, _⟩ |
    ⟨batch, rfl, hrename⟩ | ⟨hother, _⟩
  · rw [writtenEntry, hput.found, Option.map_some] at hwritten
    cases hwritten
  · cases hwritten
    have hpublished := hmkdir.published
    simp only [mkdirPublished, Bool.and_eq_true, beq_iff_eq] at hpublished
    exact ⟨(mkdirRow batch).shape, shapeAt_of_lookup hpublished.1.1.1.1.1.1, rfl, rfl, rfl⟩
  · cases hwritten
  · obtain ⟨hkey, hrow⟩ := Prod.mk.inj (Option.some.inj hwritten)
    rw [← hkey]
    exact hrename.child_arrived (congrArg EntryRow.content hrow)
  · rw [onNamespace_of_writtenEntry hwritten] at hother
    cases hother

/-- A batch that finds the entry it loaded keeps rows and entries in agreement. -/
theorem Committed.linked {moment : Instant} (h : Committed moment.state after mutation)
    (hexist : VersionsExist moment.state) (hunique : SubjectsUnique moment.state)
    (hunchanged : EntryUnchanged moment mutation) (hlinked : moment.state.tree.Linked) : after.tree.Linked where
  child := by
    intro directoryId name child dataRoot revision hrow
    rcases h.child_origin hexist hrow with ⟨_, _, hwritten⟩ | ⟨dataRoot', revision', hold, _⟩
    · exact h.written_child hwritten
    obtain ⟨row, hshape, hparent, hname, hactive⟩ := hlinked.child hold
    -- the entry of a removed or renamed directory would be the deleted one
    have hstays : ∀ {content : EntryContent} {dataRoot : Digest} {found : EntryRow} {key : Identity × Text},
        content = .directory child dataRoot → moment.state.tree.entries.lookup key = some found →
        found.content = content → after.tree.entries.lookup key ≠ none := by
      intro content _ found key hcontent hfound hsame hgone
      have hkey : (directoryId, name) = key := by
        apply hunique _ _ _ _ hold hfound
        rw [hsame, hcontent]
        exact beq_self_eq_true child
      rw [← hkey, hrow] at hgone
      cases hgone
    cases h.shapeChange with
    | unchanged hsame => exact ⟨row, (hsame child).trans hshape, hparent, hname, hactive⟩
    | created hfresh _ _ hsame =>
        refine ⟨row, ?_, hparent, hname, hactive⟩
        rw [hsame, if_neg, hshape]
        rintro rfl
        rw [Tree.shapeAt, hfresh] at hshape
        cases hshape
    | @tombstoned batch removed _ _ hcontent _ _ hsame =>
        by_cases hchild : child = removed
        · exact absurd h.of_remove.source_gone (hstays (hchild ▸ hcontent) hunchanged rfl)
        · exact ⟨row, by rw [hsame, if_neg hchild, hshape], hparent, hname, hactive⟩
    | @moved batch moved _ _ _ hcontent _ _ _ _ _ _ _ hsame =>
        by_cases hchild : child = moved
        · exact absurd h.of_rename.source_gone (hstays (hchild ▸ hcontent) hunchanged rfl)
        · exact ⟨row, by rw [hsame, if_neg hchild, hshape], hparent, hname, hactive⟩
  entry := by
    intro id row parentId hshape hactive hparent
    have hwritten : ∀ {key dataRoot revision},
        writtenEntry moment.state mutation = some (key, ⟨.directory id dataRoot, revision⟩) →
        ∃ dataRoot revision, after.tree.entries.lookup (parentId, row.name) = some ⟨.directory id dataRoot, revision⟩ := by
      intro key dataRoot revision hwritten
      obtain ⟨row', hshape', hparent', hname, _⟩ := h.written_child hwritten
      rw [hshape] at hshape'
      cases hshape'
      rw [hparent] at hparent'
      have hkey : key = (parentId, row.name) := Prod.ext (Option.some.inj hparent').symm hname.symm
      exact hkey ▸ h.child_written hexist hwritten
    have hkept : moment.state.tree.shapeAt id = some row →
        ∃ dataRoot revision, after.tree.entries.lookup (parentId, row.name) = some ⟨.directory id dataRoot, revision⟩ := by
      intro hbefore
      obtain ⟨dataRoot, revision, hold⟩ := hlinked.entry hbefore hactive hparent
      by_cases hdeleted : deletedName mutation = some ((parentId, row.name), revision)
      · rcases hunchanged.subject hdeleted hold with ⟨batch, rfl, hcontent⟩ | ⟨batch, rfl, hcontent⟩
        · obtain ⟨row', hshape', htombstoned⟩ := h.of_remove.child_tombstoned hcontent
          rw [hshape] at hshape'
          cases hshape'
          rw [hactive] at htombstoned
          cases htombstoned
        · exact hwritten (by rw [writtenEntry, hcontent])
      · exact h.child_persists hexist hold hdeleted
    cases h.shapeChange with
    | unchanged hsame => exact hkept ((hsame id).symm.trans hshape)
    | @created batch _ _ _ _ hsame =>
        by_cases hid : id = batch.childDirectoryId
        · exact hwritten (by rw [writtenEntry, hid])
        · exact hkept (by rw [← hshape, hsame, if_neg hid])
    | @tombstoned _ removed _ _ _ _ _ hsame =>
        by_cases hid : id = removed
        · rw [hsame, if_pos hid] at hshape
          cases hshape
          cases hactive
        · exact hkept (by rw [← hshape, hsame, if_neg hid])
    | @moved batch moved _ _ _ hcontent _ _ _ _ _ _ _ hsame =>
        by_cases hid : id = moved
        · exact hwritten (by rw [writtenEntry, hcontent, hid])
        · exact hkept (by rw [← hshape, hsame, if_neg hid])

end Linked

/-! ### Along a run -/

section Runs

variable {prims : Primitives} {start : Database} {system : ControlState} {permit : Instant → Mutation → Prop}

theorem Bootstrapped.shapeAt_root (hstart : Bootstrapped prims start) {id : Identity} {row : DirectoryRow}
    (h : start.tree.shapeAt id = some row) : row.parentId = none ∧ row.state = .active := by
  obtain ⟨found, hfound, rfl⟩ := lookup_of_shapeAt h
  obtain ⟨hparent, hactive, _⟩ := hstart.roots id found hfound
  exact ⟨hparent, hactive⟩

theorem rooted_of_reachable (hstart : Bootstrapped prims start) (hrun : Reachable prims permit start system) :
    system.state.tree.Rooted := by
  apply Reachable.state_invariant (fun db => db.tree.Rooted) _ _ _ hrun
  · intro before after hrooted hdrift
    rw [hdrift.tree_eq]
    exact hrooted
  · intro moment mutation after hrooted _ hcommitted
    exact hcommitted.shapeChange.rooted hrooted
  · constructor
    · intro id row parentId hrow hparent
      rw [(hstart.shapeAt_root hrow).1] at hparent
      cases hparent
    · intro id row hrow
      obtain ⟨found, hfound, _⟩ := lookup_of_shapeAt hrow
      exact ⟨1, .top hfound (hstart.roots id found hfound).1⟩
    · intro id id' row row' hrow hrow' _ _ hfilesystem
      obtain ⟨found, hfound, rfl⟩ := lookup_of_shapeAt hrow
      obtain ⟨found', hfound', rfl⟩ := lookup_of_shapeAt hrow'
      exact hstart.rootUnique id id' found found' hfound hfound' hfilesystem

theorem Bootstrapped.no_entry (hstart : Bootstrapped prims start) {key : Identity × Text} {row : EntryRow}
    (h : start.tree.entries.lookup key = some row) : False := by
  rw [hstart.entries] at h
  cases h

/-- In every run, whatever moves were planned at the same time, the directories of each filesystem form one tree: from
each of them the parents lead to the one root of its filesystem, and never back to where they started. -/
theorem directories_form_trees (hstart : Bootstrapped prims start) (hrun : Reachable prims permit start system)
    {id : Identity} {row : DirectoryRow} (hrow : system.state.tree.directories.lookup id = some row) :
    (∃ root top steps, system.state.tree.directories.Reaches DirectoryRow.parentId steps id root ∧
      system.state.tree.directories.lookup root = some top ∧ top.parentId = none ∧
      top.filesystemId = row.filesystemId ∧
      ∀ other found, system.state.tree.directories.lookup other = some found → found.parentId = none →
        found.filesystemId = row.filesystemId → other = root) ∧
    ∀ steps, ¬system.state.tree.directories.Reaches DirectoryRow.parentId (steps + 1) id id := by
  have hrooted := rooted_of_reachable hstart hrun
  obtain ⟨rows, hdepth⟩ := hrooted.grounded (shapeAt_of_lookup hrow)
  constructor
  · obtain ⟨root, top, steps, hreach, htop, hnone, hsame⟩ := hrooted.reaches_root hdepth hrow
    refine ⟨root, top, steps, hreach, htop, hnone, hsame, ?_⟩
    intro other found hfound hfoundNone hfoundSame
    exact hrooted.unique (shapeAt_of_lookup hfound) (shapeAt_of_lookup htop) hfoundNone hnone
      (hfoundSame.trans hsame.symm)
  · intro steps hreach
    -- a cycle would make the chain longer than it is
    have hlength := hdepth.functional (Table.Chain.of_reaches hreach hdepth)
    omega

theorem subjectsUnique_of_reachable (hstart : Bootstrapped prims start) (hrun : Reachable prims permit start system) :
    SubjectsUnique system.state := by
  have hboth : VersionsExist system.state ∧ SubjectsUnique system.state := by
    apply Reachable.state_invariant (fun db => VersionsExist db ∧ SubjectsUnique db) _ _ _ hrun
    · rintro before after ⟨hexist, hunique⟩ ⟨_, _, _, rfl⟩
      exact ⟨hexist, hunique⟩
    · rintro moment mutation after ⟨hexist, hunique⟩ _ hcommitted
      exact ⟨hcommitted.versionsExist hexist, hcommitted.subjectsUnique hexist hunique⟩
    · exact ⟨hstart.versionsExist, fun key _ row _ hrow => (hstart.no_entry hrow).elim⟩
  exact hboth.2

/-- Rows and entries agree along every run whose removals and renames find the entry they loaded. -/
theorem linked_of_reachable (hpermit : ∀ moment mutation, permit moment mutation → EntryUnchanged moment mutation)
    (hstart : Bootstrapped prims start) (hrun : Reachable prims permit start system) : system.state.tree.Linked := by
  have hall : VersionsExist system.state ∧ SubjectsUnique system.state ∧ system.state.tree.Linked := by
    apply Reachable.state_invariant (fun db => VersionsExist db ∧ SubjectsUnique db ∧ db.tree.Linked) _ _ _ hrun
    · rintro before after ⟨hexist, hunique, hlinked⟩ ⟨_, _, _, rfl⟩
      exact ⟨hexist, hunique, hlinked⟩
    · rintro moment mutation after ⟨hexist, hunique, hlinked⟩ hpermitted hcommitted
      exact ⟨hcommitted.versionsExist hexist, hcommitted.subjectsUnique hexist hunique,
        hcommitted.linked hexist hunique (hpermit _ _ hpermitted) hlinked⟩
    · refine ⟨hstart.versionsExist, fun key _ row _ hrow => (hstart.no_entry hrow).elim, ?_, ?_⟩
      · intro directoryId name child dataRoot revision hrow
        exact (hstart.no_entry hrow).elim
      · intro id row parentId hrow _ hparent
        rw [(hstart.shapeAt_root hrow).1] at hparent
        cases hparent
  exact hall.2.2

end Runs

namespace Sample

/-- Two directories that are moved into each other at the same time. -/
def crossed : List (Machine.Event Request Database Answer) :=
  complete 0 (createRequest 0 root [97]) ++ complete 1 (createRequest 1 root [98]) ++
    .request (renameRequest 2 root [97] 1 (fresh 11) [97]) :: advances 2 12 ++
    complete 3 (renameRequest 3 root [98] 1 (fresh 1) [98]) ++ advances 2 40

theorem directories_form_trees_crossed :
    ∃ row, (run crossed).state.tree.directories.lookup (fresh 1) = some row ∧
      (∀ steps, ¬(run crossed).state.tree.directories.Reaches DirectoryRow.parentId (steps + 1) (fresh 1) (fresh 1)) ∧
      (run crossed).trace.length = 3 := by
  have hreach := reachable_any_run crossed (by
    intro change hmem
    simp only [crossed, complete, advances, List.mem_append, List.mem_cons, List.mem_replicate, reduceCtorEq,
      and_false, or_self] at hmem)
  have hfound : ((run crossed).state.tree.directories.lookup (fresh 1)).isSome = true := by decide +kernel
  obtain ⟨row, hrow⟩ := Option.isSome_iff_exists.mp hfound
  exact ⟨row, hrow, (directories_form_trees bootstrapped_database hreach hrow).2, by decide +kernel⟩

end Sample

end Skydriver
