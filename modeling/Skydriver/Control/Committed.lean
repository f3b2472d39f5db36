import Skydriver.Control.Service

/-!
# What one committed batch did

The inversion of every batch that touches the namespace, the stored objects or the tokens.  Each record lists what the
database before and after a committed batch have to do with each other; the frame theorems at the end say which
batches leave a group of tables alone.  Later proofs start from these and never unfold a batch again.
-/

namespace Skydriver

/-! ### Root plans -/

/-- The directory table after the compare-and-swaps of a plan. -/
def updateRoots (updates : List DirectoryUpdate) (directories : Table Identity DirectoryRow) :
    Table Identity DirectoryRow :=
  updates.foldl (fun directories update => directories.modify update.directoryId fun row =>
    if row.revision = update.expectedRevision ∧ row.dataRoot = update.expectedRoot then
      { row with dataRoot := update.newRoot, revision := row.revision + 1 }
    else row) directories

def relink (entries : Table (Identity × Text) EntryRow) (link : LinkUpdate) : Table (Identity × Text) EntryRow :=
  match entries.lookup (link.parentDirectoryId, link.name) with
  | some ⟨.directory child _, revision⟩ =>
      if child = link.childDirectoryId ∧ revision = link.expectedRevision then
        entries.insert (link.parentDirectoryId, link.name) ⟨.directory child link.newChildRoot, revision + 1⟩
      else entries
  | _ => entries

/-- A link that applies to its row names a child with exactly the root it writes. -/
def Tree.linkAllowed (tree : Tree) (link : LinkUpdate) : Prop :=
  ∀ child dataRoot, tree.entries.lookup (link.parentDirectoryId, link.name) =
      some ⟨.directory child dataRoot, link.expectedRevision⟩ → child = link.childDirectoryId →
    tree.directoryEntryMatches link.parentDirectoryId link.name child link.newChildRoot = true

theorem relink_of_not_directory {entries : Table (Identity × Text) EntryRow} {link : LinkUpdate}
    (h : ∀ child dataRoot revision, entries.lookup (link.parentDirectoryId, link.name) ≠
      some ⟨.directory child dataRoot, revision⟩) : relink entries link = entries := by
  unfold relink
  split
  · rename_i child dataRoot revision hlookup
    exact absurd hlookup (h child dataRoot revision)
  · rfl

theorem Tree.updateLink_eq_some {tree after : Tree} {link : LinkUpdate} (h : tree.updateLink link = some after) :
    after = ⟨tree.directories, relink tree.entries link⟩ ∧ tree.linkAllowed link := by
  unfold Tree.updateLink at h
  split at h
  · rename_i child dataRoot revision hlookup
    unfold relink Tree.linkAllowed
    rw [hlookup]
    by_cases hmatch : child = link.childDirectoryId ∧ revision = link.expectedRevision
    · rw [if_pos hmatch] at h
      simp only [require_bind_eq_some, Option.some.injEq] at h
      obtain ⟨hallowed, rfl⟩ := h
      refine ⟨by simp only [if_pos hmatch], ?_⟩
      intro found _ heq _
      cases heq
      exact hallowed
    · rw [if_neg hmatch] at h
      cases h
      refine ⟨by simp only [if_neg hmatch], ?_⟩
      intro found _ heq hchild
      cases heq
      exact absurd ⟨hchild, rfl⟩ hmatch
  · rename_i hother
    cases h
    rw [relink_of_not_directory hother]
    refine ⟨rfl, ?_⟩
    intro child dataRoot hlookup
    exact absurd hlookup (hother child dataRoot _)

theorem Tree.foldl_updateDirectoryRoot (updates : List DirectoryUpdate) (tree : Tree) :
    updates.foldl Tree.updateDirectoryRoot tree = ⟨updateRoots updates tree.directories, tree.entries⟩ := by
  induction updates generalizing tree with
  | nil => rfl
  | cons update updates ih =>
      rw [List.foldl_cons, ih]
      rfl

theorem Tree.foldlM_updateLink {links : List LinkUpdate} {tree after : Tree}
    (h : links.foldlM Tree.updateLink tree = some after) :
    after = ⟨tree.directories, links.foldl relink tree.entries⟩ := by
  induction links generalizing tree with
  | nil =>
      cases h
      rfl
  | cons link links ih =>
      rw [List.foldlM_cons, Option.bind_eq_bind, Option.bind_eq_some_iff] at h
      obtain ⟨middle, hlink, hrest⟩ := h
      rw [ih hrest, (Tree.updateLink_eq_some hlink).1]
      rfl

theorem Tree.applyBranches_eq_some {updates : List DirectoryUpdate} {links : List LinkUpdate} {tree after : Tree}
    (h : tree.applyBranches updates links = some after) :
    after = ⟨updateRoots updates tree.directories, links.foldl relink tree.entries⟩ := by
  rw [Tree.applyBranches, Tree.foldl_updateDirectoryRoot] at h
  exact Tree.foldlM_updateLink h

theorem Tree.applyChain_eq_some {updates : List DirectoryUpdate} {links : List LinkUpdate} {tree after : Tree}
    (h : tree.applyChain updates links = some after) :
    after = ⟨updateRoots updates tree.directories, (links.take updates.length).foldl relink tree.entries⟩ := by
  induction updates generalizing links tree with
  | nil =>
      cases h
      rfl
  | cons update updates ih =>
      cases links with
      | nil =>
          rw [Tree.applyChain] at h
          rw [ih h]
          simp only [List.take_nil, List.foldl_nil]
          rfl
      | cons link links =>
          rw [Tree.applyChain, Option.bind_eq_bind, Option.bind_eq_some_iff] at h
          obtain ⟨middle, hlink, hrest⟩ := h
          rw [ih hrest, (Tree.updateLink_eq_some hlink).1]
          rfl

/-! ### Directory rows -/

/-- A directory row without the two columns that plans rewrite. -/
def DirectoryRow.shape (row : DirectoryRow) : DirectoryRow := { row with dataRoot := .zero 32, revision := 0 }

def Tree.shapeAt (tree : Tree) (id : Identity) : Option DirectoryRow :=
  (tree.directories.lookup id).map DirectoryRow.shape

theorem updateRoots_cons (update : DirectoryUpdate) (updates : List DirectoryUpdate)
    (directories : Table Identity DirectoryRow) :
    updateRoots (update :: updates) directories = updateRoots updates (updateRoots [update] directories) := rfl

theorem updateRoots_shape (updates : List DirectoryUpdate) (directories : Table Identity DirectoryRow)
    (id : Identity) :
    ((updateRoots updates directories).lookup id).map DirectoryRow.shape =
      (directories.lookup id).map DirectoryRow.shape := by
  induction updates generalizing directories with
  | nil => rfl
  | cons update updates ih =>
      rw [updateRoots_cons, ih, updateRoots, List.foldl_cons, List.foldl_nil, Table.lookup_modify]
      split_ifs with hid
      · rw [Option.map_map]
        congr 1
        funext row
        rw [Function.comp_apply]
        split_ifs
        · rfl
        · rfl
      · rfl

theorem updateRoots_lookup_of_not_mem {updates : List DirectoryUpdate} {id : Identity}
    (hmem : id ∉ updates.map DirectoryUpdate.directoryId) (directories : Table Identity DirectoryRow) :
    (updateRoots updates directories).lookup id = directories.lookup id := by
  induction updates generalizing directories with
  | nil => rfl
  | cons update updates ih =>
      rw [List.map_cons, List.mem_cons, not_or] at hmem
      rw [updateRoots_cons, ih hmem.2, updateRoots, List.foldl_cons, List.foldl_nil, Table.lookup_modify_ne _ hmem.1]

/-! ### Entries under links -/

/-- What links may make of an entry: nothing, or the same child with another root and a larger revision. -/
def EntryRow.Relinked (old new : EntryRow) : Prop :=
  new = old ∨ ∃ child dataRoot dataRoot', old.content = .directory child dataRoot ∧
    new.content = .directory child dataRoot' ∧ old.revision < new.revision

theorem EntryRow.Relinked.trans {first second third : EntryRow} (h : first.Relinked second)
    (h' : second.Relinked third) : first.Relinked third := by
  rcases h with rfl | ⟨child, dataRoot, dataRoot', hold, hnew, hlt⟩
  · exact h'
  rcases h' with rfl | ⟨child', _, dataRoot'', hold', hnew', hlt'⟩
  · exact .inr ⟨child, dataRoot, dataRoot', hold, hnew, hlt⟩
  · rw [hnew] at hold'
    cases hold'
    exact .inr ⟨child, dataRoot, dataRoot'', hold, hnew', hlt.trans hlt'⟩

theorem EntryRow.Relinked.eq_of_file {old new : EntryRow} {fileId versionId : Identity} {sizeBytes : UInt64}
    {dataRoot metadataRoot : Digest} (h : old.Relinked new)
    (hfile : new.content = .file fileId versionId sizeBytes dataRoot metadataRoot) : new = old := by
  rcases h with heq | ⟨_, _, _, _, hnew, _⟩
  · exact heq
  · rw [hnew] at hfile
    cases hfile

theorem EntryRow.Relinked.revision_le {old new : EntryRow} (h : old.Relinked new) : old.revision ≤ new.revision := by
  rcases h with rfl | ⟨_, _, _, _, _, hlt⟩
  · exact Nat.le_refl _
  · exact hlt.le

/-- A link changes the lookup of its own name only, and only if the child and the revision are as expected. -/
theorem relink_lookup (entries : Table (Identity × Text) EntryRow) (link : LinkUpdate) (key : Identity × Text) :
    (relink entries link).lookup key = entries.lookup key ∨
      ∃ dataRoot, key = (link.parentDirectoryId, link.name) ∧
        entries.lookup key = some ⟨.directory link.childDirectoryId dataRoot, link.expectedRevision⟩ ∧
        (relink entries link).lookup key =
          some ⟨.directory link.childDirectoryId link.newChildRoot, link.expectedRevision + 1⟩ := by
  unfold relink
  split
  · rename_i child dataRoot revision hlookup
    split_ifs with hmatch
    · obtain ⟨rfl, rfl⟩ := hmatch
      by_cases hkey : key = (link.parentDirectoryId, link.name)
      · subst hkey
        exact .inr ⟨dataRoot, rfl, hlookup, AList.lookup_insert _⟩
      · exact .inl (AList.lookup_insert_ne hkey)
    · exact .inl rfl
  · exact .inl rfl

theorem relinks_some {links : List LinkUpdate} {entries : Table (Identity × Text) EntryRow} {key : Identity × Text}
    {new : EntryRow} (h : (links.foldl relink entries).lookup key = some new) :
    ∃ old, entries.lookup key = some old ∧ old.Relinked new := by
  induction links generalizing entries with
  | nil => exact ⟨new, h, .inl rfl⟩
  | cons link links ih =>
      obtain ⟨middle, hmiddle, hrelinked⟩ := ih h
      rcases relink_lookup entries link key with heq | ⟨dataRoot, _, hold, hnew⟩
      · exact ⟨middle, heq ▸ hmiddle, hrelinked⟩
      · rw [hnew] at hmiddle
        cases hmiddle
        refine ⟨_, hold, EntryRow.Relinked.trans (.inr ⟨_, _, _, rfl, rfl, ?_⟩) hrelinked⟩
        exact Nat.lt_succ_self _

theorem relinks_of_some (links : List LinkUpdate) {entries : Table (Identity × Text) EntryRow} {key : Identity × Text}
    {old : EntryRow} (h : entries.lookup key = some old) :
    ∃ new, (links.foldl relink entries).lookup key = some new ∧ old.Relinked new := by
  induction links generalizing entries old with
  | nil => exact ⟨old, h, .inl rfl⟩
  | cons link links ih =>
      rcases relink_lookup entries link key with heq | ⟨dataRoot, _, hold, hnew⟩
      · exact ih (heq.trans h)
      · rw [h] at hold
        cases hold
        obtain ⟨new, hlookup, hrelinked⟩ := ih hnew
        refine ⟨new, hlookup, EntryRow.Relinked.trans (.inr ⟨_, _, _, rfl, rfl, ?_⟩) hrelinked⟩
        exact Nat.lt_succ_self _

/-! ### Entry statements -/

theorem Tree.insertEntry_eq_some {objects : Objects} {directoryId : Identity} {name : Text} {row : EntryRow}
    {tree after : Tree} (h : tree.insertEntry objects directoryId name row = some after) :
    after = ⟨tree.directories, tree.entries.insert (directoryId, name) row⟩ ∧ isStoredName name = true ∧
      tree.entries.lookup (directoryId, name) = none ∧
      (∀ key other, tree.entries.lookup key = some other → other.content.sameSubject row.content = false) ∧
      tree.entryMatches objects directoryId name row.content = true := by
  simp only [Tree.insertEntry, require_bind_eq_some, Option.isNone_iff_eq_none, Bool.not_eq_true',
    Table.any_eq_false, Option.some.injEq] at h
  obtain ⟨hname, hnone, hsubject, hmatches, rfl⟩ := h
  exact ⟨rfl, hname, hnone, hsubject, hmatches⟩

theorem Tree.deleteEntry_directories (directoryId : Identity) (name : Text) (revision : Nat) (tree : Tree) :
    (tree.deleteEntry directoryId name revision).directories = tree.directories := by
  unfold Tree.deleteEntry
  split
  · split_ifs
    · rfl
    · rfl
  · rfl

theorem Tree.deleteEntry_lookup (directoryId : Identity) (name : Text) (revision : Nat) (tree : Tree)
    (key : Identity × Text) :
    (tree.deleteEntry directoryId name revision).entries.lookup key =
      if key = (directoryId, name) ∧ (tree.entries.lookup key).any (fun row => row.revision == revision) then none
      else tree.entries.lookup key := by
  unfold Tree.deleteEntry
  by_cases hkey : key = (directoryId, name)
  · subst hkey
    cases hrow : tree.entries.lookup (directoryId, name) with
    | none => simp [hrow]
    | some row =>
        by_cases hrevision : row.revision = revision
        · simp [hrevision]
        · simp [hrevision, hrow]
  · rw [if_neg (fun h => hkey h.1)]
    split
    · split_ifs
      · exact AList.lookup_erase_ne hkey
      · rfl
    · rfl

/-! ### Namespace statements of each batch -/

theorem Tree.updateFileEntry_eq_some {objects : Objects} {directoryId fileId expectedVersionId versionId : Identity}
    {name : Text} {expectedRevision : Nat} {sizeBytes : UInt64} {dataRoot metadataRoot : Digest} {tree after : Tree}
    (h : tree.updateFileEntry objects directoryId name fileId expectedVersionId expectedRevision versionId sizeBytes
      dataRoot metadataRoot = some after) :
    after = tree ∨
      ((∃ oldSize oldRoot oldMetadata, tree.entries.lookup (directoryId, name) =
          some ⟨.file fileId expectedVersionId oldSize oldRoot oldMetadata, expectedRevision⟩) ∧
        tree.fileEntryMatches objects directoryId fileId versionId sizeBytes dataRoot = true ∧
        after = ⟨tree.directories, tree.entries.insert (directoryId, name)
          ⟨.file fileId versionId sizeBytes dataRoot metadataRoot, expectedRevision + 1⟩⟩) := by
  unfold Tree.updateFileEntry at h
  split at h
  · rename_i found foundVersion oldSize oldRoot oldMetadata revision hlookup
    split_ifs at h with hmatch
    · simp only [require_bind_eq_some, Option.some.injEq] at h
      obtain ⟨hallowed, rfl⟩ := h
      obtain ⟨rfl, rfl, rfl⟩ := hmatch
      exact .inr ⟨⟨_, _, _, hlookup⟩, hallowed, rfl⟩
    · exact .inl (Option.some.inj h).symm
  · exact .inl (Option.some.inj h).symm

/-- The entry table after the file statement of a put. -/
inductive PutEntries (intent : PutIntentRow) (objects : Objects) (tree : Tree) :
    Table (Identity × Text) EntryRow → Prop where
  | inserted (hfresh : intent.expectedEntryRevision = 0)
      (hnone : tree.entries.lookup (intent.directoryId, intent.entryName) = none)
      (hsubject : ∀ key other, tree.entries.lookup key = some other →
        other.content.sameSubject (putContent intent) = false)
      (hmatches : tree.fileEntryMatches objects intent.directoryId intent.fileId intent.versionId
        intent.description.plaintextBytes intent.description.fileRoot = true) :
      PutEntries intent objects tree
        (tree.entries.insert (intent.directoryId, intent.entryName) ⟨putContent intent, 1⟩)
  | replaced {versionId : Identity} {sizeBytes : UInt64} {dataRoot metadataRoot : Digest}
      (hexisting : intent.expectedEntryRevision ≠ 0)
      (hlookup : tree.entries.lookup (intent.directoryId, intent.entryName) =
        some ⟨.file intent.fileId versionId sizeBytes dataRoot metadataRoot, intent.expectedEntryRevision⟩)
      (hmatches : tree.fileEntryMatches objects intent.directoryId intent.fileId intent.versionId
        intent.description.plaintextBytes intent.description.fileRoot = true) :
      PutEntries intent objects tree (tree.entries.insert (intent.directoryId, intent.entryName)
        ⟨putContent intent, intent.expectedEntryRevision + 1⟩)
  | unchanged (hexisting : intent.expectedEntryRevision ≠ 0) : PutEntries intent objects tree tree.entries

theorem putTree_eq_some {batch : PutCommitBatch} {intent : PutIntentRow} {objects : Objects} {tree after : Tree}
    (h : putTree batch intent objects tree = some after) :
    tree.updatesWellFormed batch.plan.directories = true ∧
      tree.chainCurrent intent.filesystemId intent.directoryId batch.plan.directories = true ∧
      ∃ entries, PutEntries intent objects tree entries ∧
        after = ⟨updateRoots batch.plan.directories tree.directories,
          (batch.plan.links.take batch.plan.directories.length).foldl relink entries⟩ := by
  simp only [putTree, Option.bind_eq_bind, Option.bind_eq_some_iff, require_eq_some] at h
  obtain ⟨_, hwell, _, hcurrent, h⟩ := h
  refine ⟨hwell, hcurrent, ?_⟩
  split_ifs at h with hfresh
  · obtain ⟨middle, hinsert, hchain⟩ := Option.bind_eq_some_iff.mp h
    obtain ⟨rfl, _, hnone, hsubject, hmatches⟩ := Tree.insertEntry_eq_some hinsert
    exact ⟨_, .inserted hfresh hnone hsubject hmatches, Tree.applyChain_eq_some hchain⟩
  · obtain ⟨middle, hupdate, hchain⟩ := Option.bind_eq_some_iff.mp h
    rcases Tree.updateFileEntry_eq_some hupdate with rfl | ⟨⟨_, _, _, hlookup⟩, hmatches, rfl⟩
    · exact ⟨_, .unchanged hfresh, Tree.applyChain_eq_some hchain⟩
    · exact ⟨_, .replaced hfresh hlookup hmatches, Tree.applyChain_eq_some hchain⟩

theorem mkdirTree_eq_some {batch : MkdirBatch} {objects : Objects} {tree after : Tree}
    (h : mkdirTree batch objects tree = some after) :
    tree.updatesWellFormed batch.plan.directories = true ∧
      tree.chainCurrent batch.filesystemId batch.parentDirectoryId batch.plan.directories = true ∧
      tree.directories.lookup batch.childDirectoryId = none ∧ batch.parentDirectoryId ≠ batch.childDirectoryId ∧
      (∀ id other, tree.directories.lookup id = some other → ¬(other.filesystemId = batch.filesystemId ∧
        other.parentId = some batch.parentDirectoryId ∧ other.name = batch.name)) ∧
      (∃ parent, tree.directories.lookup batch.parentDirectoryId = some parent ∧
        parent.filesystemId = batch.filesystemId) ∧
      tree.entries.lookup (batch.parentDirectoryId, batch.name) = none ∧
      (∀ key other, tree.entries.lookup key = some other →
        other.content.sameSubject (.directory batch.childDirectoryId batch.emptyRoot) = false) ∧
      after = ⟨updateRoots batch.plan.directories
          (tree.directories.insert batch.childDirectoryId (mkdirRow batch)),
        (batch.plan.links.take batch.plan.directories.length).foldl relink
          (tree.entries.insert (batch.parentDirectoryId, batch.name)
            ⟨.directory batch.childDirectoryId batch.emptyRoot, 1⟩)⟩ := by
  simp only [mkdirTree, Tree.insertDirectory, Option.bind_eq_bind, Option.bind_eq_some_iff, require_eq_some,
    Option.some.injEq, Bool.and_eq_true, Option.isNone_iff_eq_none, Bool.not_eq_true', Table.any_eq_false,
    Option.any_eq_true, beq_iff_eq, decide_eq_true_eq] at h
  obtain ⟨_, hwell, _, hcurrent, middle, ⟨_, hchild, _, hunique, _, ⟨parent, hparent, hfilesystem⟩, _, hnames, rfl⟩,
    entered, hinsert, hchain⟩ := h
  obtain ⟨rfl, _, hnone, hsubject, _⟩ := Tree.insertEntry_eq_some hinsert
  refine ⟨hwell, hcurrent, hchild.2, hnames.2, ?_, ⟨parent, hparent, hfilesystem⟩, hnone, hsubject,
    Tree.applyChain_eq_some hchain⟩
  intro id other hother
  have := hunique id other hother
  simp only [Bool.and_eq_false_iff, beq_eq_false_iff_ne] at this
  intro hsame
  rcases this with (hne | hne) | hne
  · exact hne hsame.1
  · exact hne hsame.2.1
  · exact hne hsame.2.2

/-- The directory table after the tombstone statement of a removal. -/
def removedDirectories (content : EntryContent) (directories : Table Identity DirectoryRow) :
    Table Identity DirectoryRow :=
  match content with
  | .file _ _ _ _ _ => directories
  | .directory childDirectoryId _ =>
      directories.modify childDirectoryId fun row =>
        if row.state = .active then { row with state := .tombstoned, revision := row.revision + 1 } else row

theorem removeTree_eq_some {batch : RemoveBatch} {tree after : Tree} (h : removeTree batch tree = some after) :
    tree.updatesWellFormed batch.plan.directories = true ∧ removeProofApplied batch after = true ∧
      after = ⟨updateRoots batch.plan.directories (removedDirectories batch.entry.content tree.directories),
        (batch.plan.links.take batch.plan.directories.length).foldl relink
          (tree.deleteEntry batch.directoryId batch.name batch.expectedEntryRevision).entries⟩ := by
  simp only [removeTree, Option.bind_eq_bind, Option.bind_eq_some_iff, require_eq_some, Option.some.injEq] at h
  obtain ⟨_, hwell, found, hchain, _, hproof, rfl⟩ := h
  refine ⟨hwell, hproof, ?_⟩
  rw [Tree.applyChain_eq_some hchain, Tree.mk.injEq]
  cases batch.entry.content with
  | file fileId versionId sizeBytes dataRoot metadataRoot =>
      refine ⟨?_, rfl⟩
      rw [removedDirectories, Tree.deleteEntry_directories]
  | directory childDirectoryId dataRoot =>
      refine ⟨?_, rfl⟩
      show updateRoots _ (Tree.tombstoneDirectory childDirectoryId (tree.deleteEntry _ _ _)).directories = _
      unfold Tree.tombstoneDirectory
      rw [Tree.deleteEntry_directories]
      rfl

def movedRow (target : RenameTarget) (row : DirectoryRow) : DirectoryRow :=
  { row with
    parentId := some target.destinationDirectoryId
    name := target.destinationName
    revision := row.revision + 1 }

/-- The directory table after the move statement of a rename. -/
inductive RenamedDirectories (target : RenameTarget) (tree : Tree) :
    EntryContent → Table Identity DirectoryRow → Prop where
  | file {fileId versionId : Identity} {sizeBytes : UInt64} {dataRoot metadataRoot : Digest} :
      RenamedDirectories target tree (.file fileId versionId sizeBytes dataRoot metadataRoot) tree.directories
  | unchanged {childDirectoryId : Identity} {dataRoot : Digest} :
      RenamedDirectories target tree (.directory childDirectoryId dataRoot) tree.directories
  | moved {childDirectoryId : Identity} {dataRoot : Digest} {row : DirectoryRow}
      (hrow : tree.directories.lookup childDirectoryId = some row)
      (hsource : row.parentId = some target.sourceDirectoryId) (hname : row.name = target.sourceName)
      (hactive : row.state = .active)
      (hacyclic : childDirectoryId ∉ tree.ancestors target.destinationDirectoryId)
      (hunique : ∀ id other, tree.directories.lookup id = some other → id ≠ childDirectoryId →
        ¬(other.filesystemId = row.filesystemId ∧ other.parentId = some target.destinationDirectoryId ∧
          other.name = target.destinationName))
      (hdestination : ∃ parent, tree.directories.lookup target.destinationDirectoryId = some parent ∧
        parent.filesystemId = row.filesystemId) :
      RenamedDirectories target tree (.directory childDirectoryId dataRoot)
        (tree.directories.insert childDirectoryId (movedRow target row))

theorem Tree.moveDirectory_eq_some {childDirectoryId : Identity} {dataRoot : Digest} {target : RenameTarget}
    {tree after : Tree}
    (h : tree.moveDirectory childDirectoryId target.sourceDirectoryId target.sourceName target.destinationDirectoryId
      target.destinationName = some after) :
    after.entries = tree.entries ∧
      RenamedDirectories target tree (.directory childDirectoryId dataRoot) after.directories := by
  unfold Tree.moveDirectory at h
  split at h
  · rename_i row hrow
    split_ifs at h with hmatch
    · simp only [require_bind_eq_some, Option.some.injEq, Bool.not_eq_true', Table.any_eq_false, Option.any_eq_true,
        beq_iff_eq, Bool.and_eq_false_iff, bne_eq_false_iff_eq, beq_eq_false_iff_ne] at h
      obtain ⟨hacyclic, hunique, hdestination, _, rfl⟩ := h
      refine ⟨rfl, .moved hrow hmatch.1 hmatch.2.1 hmatch.2.2 ?_ ?_ hdestination⟩
      · intro hmem
        rw [List.contains_iff_mem.mpr hmem] at hacyclic
        cases hacyclic
      · intro id other hother hne hsame
        rcases hunique id other hother with ((heq | hdiffers) | hdiffers) | hdiffers
        · exact hne heq
        · exact hdiffers hsame.1
        · exact hdiffers hsame.2.1
        · exact hdiffers hsame.2.2
    · cases h
      exact ⟨rfl, .unchanged⟩
  · cases h
    exact ⟨rfl, .unchanged⟩

theorem renameTree_eq_some {batch : RenameBatch} {objects : Objects} {tree after : Tree}
    (h : renameTree batch objects tree = some after) :
    tree.updatesWellFormed batch.plan.directories = true ∧ renameProofApplied batch after = true ∧
      ∃ directories, RenamedDirectories batch.target tree batch.entry.content directories ∧
        (tree.deleteEntry batch.target.sourceDirectoryId batch.target.sourceName
          batch.expectedSourceRevision).entries.lookup
            (batch.target.destinationDirectoryId, batch.target.destinationName) = none ∧
        (∀ key other, (tree.deleteEntry batch.target.sourceDirectoryId batch.target.sourceName
          batch.expectedSourceRevision).entries.lookup key = some other →
            other.content.sameSubject batch.entry.content = false) ∧
        (Tree.mk directories (tree.deleteEntry batch.target.sourceDirectoryId batch.target.sourceName
          batch.expectedSourceRevision).entries).entryMatches objects batch.target.destinationDirectoryId
            batch.target.destinationName batch.entry.content = true ∧
        after = ⟨updateRoots batch.plan.directories directories,
          batch.plan.links.foldl relink
            ((tree.deleteEntry batch.target.sourceDirectoryId batch.target.sourceName
              batch.expectedSourceRevision).entries.insert
                (batch.target.destinationDirectoryId, batch.target.destinationName)
                ⟨batch.entry.content, batch.entry.revision + 1⟩)⟩ := by
  simp only [renameTree, Option.bind_eq_bind, Option.bind_eq_some_iff, require_eq_some] at h
  obtain ⟨_, hwell, h⟩ := h
  -- the optional move comes first; whatever it did, the remaining statements are the same
  have hmove : ∃ moved : Tree,
      (moved.entries = (tree.deleteEntry batch.target.sourceDirectoryId batch.target.sourceName
        batch.expectedSourceRevision).entries ∧
        RenamedDirectories batch.target tree batch.entry.content moved.directories) ∧
      ((moved.insertEntry objects batch.target.destinationDirectoryId batch.target.destinationName
        ⟨batch.entry.content, batch.entry.revision + 1⟩).bind fun tree =>
          (tree.applyBranches batch.plan.directories batch.plan.links).bind fun tree =>
            (require (renameProofApplied batch tree)).bind fun _ => some tree) = some after := by
    cases hcontent : batch.entry.content with
    | file fileId versionId sizeBytes dataRoot metadataRoot =>
        rw [hcontent] at h
        refine ⟨_, ⟨rfl, ?_⟩, h⟩
        rw [Tree.deleteEntry_directories]
        exact .file
    | directory childDirectoryId dataRoot =>
        rw [hcontent] at h
        obtain ⟨moved, hmoved, hrest⟩ := Option.bind_eq_some_iff.mp h
        obtain ⟨hentries, hdirectories⟩ := Tree.moveDirectory_eq_some hmoved
        refine ⟨moved, ⟨hentries, ?_⟩, hrest⟩
        generalize moved.directories = directories at hdirectories
        generalize hcase : EntryContent.directory childDirectoryId dataRoot = content at hdirectories
        cases hdirectories with
        | file => cases hcase
        | unchanged =>
            cases hcase
            rw [Tree.deleteEntry_directories]
            exact .unchanged
        | moved hrow hsource hname hactive hacyclic hunique hdestination =>
            cases hcase
            unfold Tree.ancestors at hacyclic
            rw [Tree.deleteEntry_directories] at hrow hunique hdestination hacyclic ⊢
            exact .moved hrow hsource hname hactive hacyclic hunique hdestination
  obtain ⟨moved, hmove, hrest⟩ := hmove
  simp only [Option.bind_eq_some_iff, require_eq_some, Option.some.injEq] at hrest
  obtain ⟨entered, hinsert, found, hbranches, _, hproof, rfl⟩ := hrest
  obtain ⟨rfl, _, hnone, hsubject, hmatches⟩ := Tree.insertEntry_eq_some hinsert
  refine ⟨hwell, hproof, moved.directories, hmove.2, ?_, ?_, ?_, ?_⟩
  · rw [← hmove.1]
    exact hnone
  · rw [← hmove.1]
    exact hsubject
  · rw [← hmove.1]
    exact hmatches
  · rw [← hmove.1]
    exact Tree.applyBranches_eq_some hbranches

/-- The file table after a put: a new file, or the next revision of one that is still as expected. -/
inductive PutFiles (intent : PutIntentRow) (files : Table Identity FileRow) : Table Identity FileRow → Prop where
  | inserted (hfresh : intent.expectedEntryRevision = 0) (hnone : files.lookup intent.fileId = none) :
      PutFiles intent files
        (files.insert intent.fileId ⟨intent.filesystemId, some intent.versionId, .active, 1⟩)
  | replaced (hexisting : intent.expectedEntryRevision ≠ 0) :
      PutFiles intent files (files.modify intent.fileId fun file =>
        if file.revision = intent.expectedFileRevision ∧ file.currentVersionId = intent.expectedCurrentVersionId ∧
            file.currentVersionId.isSome then
          { file with currentVersionId := some intent.versionId, revision := file.revision + 1 }
        else file)

def putVersion (batch : PutCommitBatch) (intent : PutIntentRow) : VersionRow :=
  ⟨intent.fileId, intent.description, batch.proof.blockManifestR2Version, batch.proof.encodedBytes,
    batch.proof.encodedSha256, .published, some batch.now⟩

def putLocation (batch : PutCommitBatch) (intent : PutIntentRow) : LocationRow :=
  ⟨intent.versionId, intent.driverId, intent.storageKey, batch.proof.provider, batch.proof.encodedBytes,
    batch.proof.encodedSha256, .available, none, 3⟩

theorem putObjects_eq_some {batch : PutCommitBatch} {intent : PutIntentRow} {tree : Tree} {objects after : Objects}
    (h : putObjects batch intent tree objects = some after) :
    PutFiles intent objects.files after.files ∧
      objects.versions.lookup intent.versionId = none ∧ objects.locations.lookup intent.locationId = none ∧
      (∀ id location, objects.locations.lookup id = some location →
        ¬(location.driverId = intent.driverId ∧ location.storageKey = intent.storageKey)) ∧
      after.versions = objects.versions.insert intent.versionId (putVersion batch intent) ∧
      after.locations = objects.locations.insert intent.locationId (putLocation batch intent) := by
  unfold putObjects at h
  split_ifs at h with hfresh
  · simp only [Option.bind_eq_bind, Option.bind_eq_some_iff, require_eq_some, Bool.and_eq_true, Option.some.injEq,
      Option.isNone_iff_eq_none, Bool.not_eq_true', Table.any_eq_false, Bool.and_eq_false_iff,
      beq_eq_false_iff_ne] at h
    obtain ⟨_, hnone, files, rfl, _, _, _, _, _, hversion, _, _, _, hlocation, _, hkeys, rfl⟩ := h
    refine ⟨.inserted hfresh hnone.2, hversion.2, hlocation.2, ?_, rfl, rfl⟩
    intro id location hfound hsame
    exact (hkeys id location hfound).elim (fun hne => hne hsame.1) fun hne => hne hsame.2
  · simp only [Option.bind_eq_bind, Option.bind_eq_some_iff, require_eq_some, Bool.and_eq_true, Option.some.injEq,
      Option.isNone_iff_eq_none, Bool.not_eq_true', Table.any_eq_false, Bool.and_eq_false_iff,
      beq_eq_false_iff_ne] at h
    obtain ⟨files, rfl, _, _, _, _, _, hversion, _, _, _, hlocation, _, hkeys, rfl⟩ := h
    refine ⟨.replaced hfresh, hversion.2, hlocation.2, ?_, rfl, rfl⟩
    intro id location hfound hsame
    exact (hkeys id location hfound).elim (fun hne => hne hsame.1) fun hne => hne hsame.2

/-! ### Namespace batches -/

theorem Journal.publish_eq_some {filesystemId mutationId : Identity} {kind : MutationKind} {root : Digest} {now : Nat}
    {journal after : Journal} (h : journal.publish filesystemId kind mutationId root now = some after) :
    ∃ catalogRevisions mutationHeads, after = { journal with
      catalogRevisions
      nextCatalogRevision := journal.nextCatalogRevision + 1
      mutationHeads } := by
  simp only [Journal.publish, require_bind_eq_some, Option.some.injEq] at h
  exact ⟨_, _, h.2.2.symm⟩

structure PutCommitted (batch : PutCommitBatch) (intent : PutIntentRow) (db after : Database) : Prop where
  found : db.journal.putIntents.lookup batch.intentId = some intent
  prepared : intent.state = .prepared
  live : intent.expiresAt > db.now
  objects : putObjects batch intent db.tree db.objects = some after.objects
  tree : putTree batch intent after.objects db.tree = some after.tree
  published : putPublished batch intent after.tree after.objects = true
  journal : ∃ journal receipt, db.journal.publish intent.filesystemId .put batch.intentId batch.plan.root batch.now =
    some journal ∧ after.journal = { journal with
      putReceipts := journal.putReceipts.insert batch.intentId receipt
      putIntents := journal.putIntents.insert batch.intentId
        { intent with state := .committed, revision := intent.revision + 1 } }
  lifecycle : after.lifecycle = (db.lifecycle.supersede db.journal.putIntents fun driverId storageKey =>
    driverId == intent.driverId && storageKey == intent.storageKey).supersedeUpload batch.intentId db.now
  authority : after.authority = db.authority
  surroundings : after.surroundings = db.surroundings
  token : after.putTokenAuthorized batch.token.id intent.principalId intent.directoryId intent.driverId = true
  target : after.putTargetAvailable intent.filesystemId intent.directoryId intent.driverId
    intent.description.cryptoSuite intent.description.keyEpoch = true
  granted : after.putGranted intent.directoryId intent.principalId = true
  receipt : db.journal.putReceipts.lookup batch.intentId = none ∧
    after.journal.putReceipts = db.journal.putReceipts.insert batch.intentId
      ⟨batch.token.id, batch.proof, intent.expectedEntryRevision + 1, db.journal.nextCatalogRevision, batch.now⟩
  evidence : ∃ evidence, db.journal.uploadEvidence.lookup batch.intentId = some evidence ∧
    evidence.proof = batch.proof

theorem executePutCommit_eq_some {batch : PutCommitBatch} {db after : Database}
    (h : executePutCommit batch db = some after) : ∃ intent, PutCommitted batch intent db after := by
  simp only [executePutCommit, Option.bind_eq_bind, Option.bind_eq_some_iff, require_eq_some, Bool.and_eq_true,
    beq_iff_eq] at h
  obtain ⟨intent, hintent, _, hlive, objects, hobjects, tree, htree, journal, hjournal, evidence, hevidence, _,
    ⟨hproof, hfresh⟩, _, htoken, _, htarget, _, hgranted, _, hpublished, hafter⟩ := h
  cases hafter
  obtain ⟨_, _, hpublish⟩ := Journal.publish_eq_some hjournal
  rw [hpublish] at hevidence hfresh
  refine ⟨intent, hintent, hlive.1, of_decide_eq_true hlive.2, hobjects, htree, hpublished,
    ⟨journal, _, hjournal, rfl⟩, rfl, rfl, rfl, htoken, htarget, hgranted, ?_, ⟨evidence, hevidence, hproof⟩⟩
  exact ⟨Option.isNone_iff_eq_none.mp hfresh, by rw [hpublish]⟩

def mkdirRecord (batch : MkdirBatch) (db : Database) : DirectoryCreateRow :=
  ⟨batch.token.id, batch.requestSha256, batch.idempotencyKey, batch.filesystemId, batch.parentDirectoryId,
    batch.childDirectoryId, batch.name, batch.emptyRoot, batch.cryptoSuite, 1, db.journal.nextCatalogRevision, batch.now⟩

structure MkdirCommitted (batch : MkdirBatch) (db after : Database) : Prop where
  tree : mkdirTree batch db.objects db.tree = some after.tree
  authority : mkdirAuthority batch db.authority = some after.authority
  journal : ∃ journal receipt, db.journal.publish batch.filesystemId .mkdir batch.operationId batch.plan.root
    batch.now = some journal ∧ after.journal = { journal with
      directoryCreates := journal.directoryCreates.insert batch.operationId receipt }
  objects : after.objects = db.objects
  lifecycle : after.lifecycle = db.lifecycle
  surroundings : after.surroundings = db.surroundings
  authorized : after.chainAuthorized true batch.token.id batch.token.principalId batch.parentDirectoryId
    .contentWrite = true
  published : mkdirPublished batch after = true
  fresh : db.journal.directoryCreates.lookup batch.operationId = none ∧
    ∀ id other, db.journal.directoryCreates.lookup id = some other →
      ¬(other.tokenId = batch.token.id ∧ other.idempotencyKey = batch.idempotencyKey)
  record : after.journal.directoryCreates =
    db.journal.directoryCreates.insert batch.operationId (mkdirRecord batch db)

theorem executeMkdir_eq_some {batch : MkdirBatch} {db after : Database} (h : executeMkdir batch db = some after) :
    MkdirCommitted batch db after := by
  simp only [executeMkdir, Option.bind_eq_bind, Option.bind_eq_some_iff, require_eq_some, Bool.and_eq_true,
    Option.isNone_iff_eq_none, Bool.not_eq_true', Table.any_eq_false, Bool.or_eq_false_iff, Bool.and_eq_false_iff,
    beq_eq_false_iff_ne] at h
  obtain ⟨_, hnew, _, hkeys, tree, htree, authority, hauthority, journal, hjournal, _, hauthorized, _, hpublished,
    hafter⟩ := h
  cases hafter
  obtain ⟨_, _, hpublish⟩ := Journal.publish_eq_some hjournal
  refine ⟨htree, hauthority, ⟨journal, _, hjournal, rfl⟩, rfl, rfl, rfl, hauthorized, hpublished, ⟨hnew.2, ?_⟩, ?_⟩
  · intro id other hother hsame
    exact (hkeys id other hother).1.elim (fun hne => hne hsame.1) fun hne => hne hsame.2
  · rw [hpublish]
    rfl

def removeRecord (batch : RemoveBatch) (db : Database) : RemoveRow :=
  ⟨batch.token.id, batch.requestSha256, batch.idempotencyKey, batch.filesystemId, batch.directoryId, batch.name,
    batch.entry.content.subjectId, db.journal.nextCatalogRevision, batch.deleteAfter, batch.now⟩

structure RemoveCommitted (batch : RemoveBatch) (db after : Database) : Prop where
  notMount : ∀ child dataRoot, batch.entry.content = .directory child dataRoot → db.isExplicitMount child = false
  tree : removeTree batch db.tree = some after.tree
  objects : after.objects = removeObjects batch db.objects
  journal : ∃ journal receipt, db.journal.publish batch.filesystemId .remove batch.operationId batch.plan.root
    batch.now = some journal ∧ after.journal = { journal with
      removals := journal.removals.insert batch.operationId receipt }
  lifecycle : after.lifecycle = db.lifecycle.supersede db.journal.putIntents (removedKeys batch db.objects)
  authority : after.authority = db.authority
  surroundings : after.surroundings = db.surroundings
  fresh : db.journal.removals.lookup batch.operationId = none ∧
    ∀ id other, db.journal.removals.lookup id = some other →
      ¬(other.tokenId = batch.token.id ∧ other.idempotencyKey = batch.idempotencyKey)
  record : after.journal.removals = db.journal.removals.insert batch.operationId (removeRecord batch db)

theorem executeRemove_eq_some {batch : RemoveBatch} {db after : Database} (h : executeRemove batch db = some after) :
    RemoveCommitted batch db after := by
  simp only [executeRemove, Option.bind_eq_bind, Option.bind_eq_some_iff, require_eq_some,
    Option.isNone_iff_eq_none, Bool.not_eq_true', Table.any_eq_false, Bool.and_eq_false_iff,
    beq_eq_false_iff_ne] at h
  obtain ⟨_, hnew, _, hkeys, _, hmount, tree, htree, journal, hjournal, hafter⟩ := h
  cases hafter
  obtain ⟨_, _, hpublish⟩ := Journal.publish_eq_some hjournal
  refine ⟨?_, htree, rfl, ⟨journal, _, hjournal, rfl⟩, rfl, rfl, rfl, ⟨hnew, ?_⟩, ?_⟩
  · intro child dataRoot hcontent
    simpa [hcontent] using hmount
  · intro id other hother hsame
    exact (hkeys id other hother).elim (fun hne => hne hsame.1) fun hne => hne hsame.2
  · rw [hpublish]
    rfl

def renameRecord (batch : RenameBatch) (db : Database) : RenameRow :=
  ⟨batch.token.id, batch.requestSha256, batch.idempotencyKey, batch.filesystemId, batch.target.sourceDirectoryId,
    batch.target.sourceName, batch.target.destinationDirectoryId, batch.target.destinationName,
    batch.entry.content.subjectId, batch.entry.revision + 1, db.journal.nextCatalogRevision, batch.now⟩

structure RenameCommitted (batch : RenameBatch) (db after : Database) : Prop where
  sameDriver : db.sameEffectiveDriver batch.target.sourceDirectoryId batch.target.destinationDirectoryId = true
  notMount : ∀ child dataRoot, batch.entry.content = .directory child dataRoot → db.isExplicitMount child = false
  tree : renameTree batch db.objects db.tree = some after.tree
  journal : ∃ journal receipt, db.journal.publish batch.filesystemId .rename batch.operationId batch.plan.root
    batch.now = some journal ∧ after.journal = { journal with
      renames := journal.renames.insert batch.operationId receipt }
  objects : after.objects = db.objects
  lifecycle : after.lifecycle = db.lifecycle
  authority : after.authority = db.authority
  surroundings : after.surroundings = db.surroundings
  fresh : db.journal.renames.lookup batch.operationId = none ∧
    ∀ id other, db.journal.renames.lookup id = some other →
      ¬(other.tokenId = batch.token.id ∧ other.idempotencyKey = batch.idempotencyKey)
  record : after.journal.renames = db.journal.renames.insert batch.operationId (renameRecord batch db)

theorem executeRename_eq_some {batch : RenameBatch} {db after : Database} (h : executeRename batch db = some after) :
    RenameCommitted batch db after := by
  simp only [executeRename, Option.bind_eq_bind, Option.bind_eq_some_iff, require_eq_some,
    Option.isNone_iff_eq_none, Bool.not_eq_true', Table.any_eq_false, Bool.and_eq_false_iff,
    beq_eq_false_iff_ne] at h
  obtain ⟨_, hnew, _, hkeys, _, hdriver, _, hmount, tree, htree, journal, hjournal, hafter⟩ := h
  cases hafter
  obtain ⟨_, _, hpublish⟩ := Journal.publish_eq_some hjournal
  refine ⟨hdriver, ?_, htree, ⟨journal, _, hjournal, rfl⟩, rfl, rfl, rfl, rfl, ⟨hnew, ?_⟩, ?_⟩
  · intro child dataRoot hcontent
    simpa [hcontent] using hmount
  · intro id other hother hsame
    exact (hkeys id other hother).elim (fun hne => hne hsame.1) fun hne => hne hsame.2
  · rw [hpublish]
    rfl

/-! ### Other batches -/

/-- A preparation leaves everything alone, or adds one intent whose version, location and storage key are new. -/
theorem executePutPrepare_eq_some {batch : PutPrepareBatch} {db after : Database}
    (h : executePutPrepare batch db = some after) :
    after = db ∨
      (after = { db with journal := { db.journal with
          putIntents := db.journal.putIntents.insert batch.intentId batch.intent } } ∧
        batch.intent.state = .prepared ∧ db.quotaAdmits batch.intent = true ∧ db.journal.putIntents.lookup batch.intentId = none ∧
        (∀ id other, db.journal.putIntents.lookup id = some other → other.versionId ≠ batch.intent.versionId ∧
          other.locationId ≠ batch.intent.locationId ∧
          ¬(other.driverId = batch.intent.driverId ∧ other.storageKey = batch.intent.storageKey)) ∧
        ∀ id location, db.objects.locations.lookup id = some location →
          ¬(location.driverId = batch.intent.driverId ∧ location.storageKey = batch.intent.storageKey)) := by
  simp only [executePutPrepare, Option.bind_eq_bind, Option.bind_eq_some_iff, require_eq_some, Bool.and_eq_true,
    beq_iff_eq, Bool.not_eq_true', Table.any_eq_false, Bool.and_eq_false_iff, beq_eq_false_iff_ne] at h
  obtain ⟨_, hstate, _, _, _, hkeys, _, _, _, _, _, _, _, _, _, hquota, h⟩ := h
  split_ifs at h
  · exact .inl (Option.some.inj h).symm
  · simp only [Option.bind_eq_some_iff, require_eq_some, Bool.and_eq_true, Option.isNone_iff_eq_none,
      Bool.not_eq_true', Table.any_eq_false, Bool.or_eq_false_iff, Bool.and_eq_false_iff, beq_eq_false_iff_ne] at h
    obtain ⟨_, hnew, _, hunique, hafter⟩ := h
    refine .inr ⟨(Option.some.inj hafter).symm, hstate.1.2, hquota, hnew.2, ?_, ?_⟩
    · intro id other hother
      obtain ⟨⟨hversion, hlocation⟩, hkey⟩ := hunique id other hother
      exact ⟨hversion, hlocation, by tauto⟩
    · intro id location hlocation
      have := hkeys id location hlocation
      tauto

theorem executeEvidence_eq_some {batch : EvidenceBatch} {db after : Database}
    (h : executeEvidence batch db = some after) :
    ∃ uploadEvidence, after = { db with journal := { db.journal with uploadEvidence } } := by
  simp only [executeEvidence, Option.bind_eq_bind, Option.bind_eq_some_iff] at h
  obtain ⟨_, _, _, _, _, _, h⟩ := h
  split_ifs at h
  · cases h
    exact ⟨_, rfl⟩
  · cases h
    exact ⟨_, rfl⟩

theorem executeTokenIssue_eq_some {batch : TokenIssueBatch} {db after : Database}
    (h : executeTokenIssue batch db = some after) :
    db.authority.tokens.lookup batch.tokenId = none ∧ sealAllowed db (issuedToken batch) batch.now = true ∧
      ∃ tokenIssues, after = { db with
        authority := { db.authority with tokens := db.authority.tokens.insert batch.tokenId (issuedToken batch) }
        journal := { db.journal with tokenIssues } } := by
  simp only [executeTokenIssue, Option.bind_eq_bind, Option.bind_eq_some_iff, require_eq_some,
    Option.isNone_iff_eq_none] at h
  obtain ⟨_, _, _, hnew, _, _, _, _, _, _, _, hseal, _, _, _, _, _, _, hafter⟩ := h
  exact ⟨hnew, hseal, _, (Option.some.inj hafter).symm⟩

/-- What a committed revocation did: the target keeps everything but its revocation time. -/
theorem executeTokenRevoke_eq_some {batch : TokenRevokeBatch} {db after : Database}
    (h : executeTokenRevoke batch db = some after) :
    ∃ target revokedAt tokenRevokes, db.authority.tokens.lookup batch.targetTokenId = some target ∧
      after = { db with
        authority := { db.authority with
          tokens := db.authority.tokens.insert batch.targetTokenId { target with revokedAt } }
        journal := { db.journal with tokenRevokes } } := by
  simp only [executeTokenRevoke, Option.bind_eq_bind, Option.bind_eq_some_iff] at h
  obtain ⟨target, htarget, _, _, _, _, _, _, _, _, _, _, hafter⟩ := h
  rw [← Option.some.inj hafter]
  split_ifs
  · exact ⟨target, some batch.now, _, htarget, rfl⟩
  · exact ⟨target, target.revokedAt, _, htarget, rfl⟩

theorem executeAclReplace_eq_some {batch : AclReplaceBatch} {db after : Database}
    (h : executeAclReplace batch db = some after) :
    policyIntentAllowed .aclReplace batch.intent db = true ∧ ∃ grants aclRevisions policies, after = { db with
      authority := { db.authority with grants, aclRevisions }
      journal := { db.journal with policies } } := by
  simp only [executeAclReplace, Option.bind_eq_bind, Option.bind_eq_some_iff, require_eq_some] at h
  obtain ⟨_, hallowed, _, _, _, _, _, _, hafter⟩ := h
  exact ⟨hallowed, _, _, _, (Option.some.inj hafter).symm⟩

theorem executePlacementReplace_eq_some {batch : PlacementReplaceBatch} {db after : Database}
    (h : executePlacementReplace batch db = some after) :
    policyIntentAllowed .placementReplace batch.intent db = true ∧
      ∃ directoryDrivers placementRevisions mounts policies, after = { db with
        authority := { db.authority with directoryDrivers, placementRevisions, mounts }
        journal := { db.journal with policies } } := by
  simp only [executePlacementReplace, Option.bind_eq_bind, Option.bind_eq_some_iff, require_eq_some] at h
  obtain ⟨_, hallowed, _, _, _, _, _, _, hafter⟩ := h
  exact ⟨hallowed, _, _, _, _, (Option.some.inj hafter).symm⟩

theorem mem_firstByTime {limit : Nat} {candidates : List (Nat × Identity)} {id : Identity}
    (h : id ∈ firstByTime limit candidates) : ∃ time, (time, id) ∈ candidates := by
  simp only [firstByTime, List.mem_map] at h
  obtain ⟨candidate, hmem, rfl⟩ := h
  exact ⟨candidate.1, (List.perm_insertionSort _ _).mem_iff.mp (List.mem_of_mem_take hmem)⟩

theorem mem_oldestFirst {ties : Identity → Nat} {limit : Nat} {candidates : List (Nat × Identity)} {id : Identity}
    (h : id ∈ oldestFirst ties limit candidates) : ∃ time, (time, id) ∈ candidates := by
  simp only [oldestFirst, List.mem_map] at h
  obtain ⟨candidate, hmem, rfl⟩ := h
  exact ⟨candidate.1, (List.perm_insertionSort _ _).mem_iff.mp (List.mem_of_mem_take hmem)⟩

/-- Maintenance changes the state of intents that were prepared, opens delete tasks and forgets direct reads. -/
theorem executeMaintenance_eq_some {now : Nat} {db after : Database} (h : executeMaintenance now db = some after) :
    ∃ (overdue : List Identity) (lifecycle : Lifecycle), after = { db with
        journal := { db.journal with
          putIntents := db.journal.putIntents.mapRows fun id intent =>
            if overdue.contains id then { intent with state := .expired, revision := intent.revision + 1 }
            else intent }
        lifecycle } ∧
      ∀ id ∈ overdue, ∃ intent, db.journal.putIntents.lookup id = some intent ∧ intent.state = .prepared := by
  rw [executeMaintenance, Option.some.injEq] at h
  refine ⟨_, _, h.symm, ?_⟩
  intro id hid
  obtain ⟨time, hcandidate⟩ := mem_oldestFirst hid
  obtain ⟨row, hrow, heq⟩ := List.mem_filterMap.mp hcandidate
  split_ifs at heq with hoverdue
  cases heq
  exact ⟨row.2, Table.mem_entries_iff.mp hrow, hoverdue.1⟩

/-- The upload of the intent was given up. -/
def Database.ended (db : Database) (id : Identity) : Prop :=
  ∃ intent, db.journal.putIntents.lookup id = some intent ∧ (intent.state = .expired ∨ intent.state = .abandoned)

/-- Rows that a fold inserts under keys with a property have the property or were there before. -/
theorem foldl_insert_lookup {α : Type} {property : Identity → Prop}
    {step : Table Identity α → Identity → Table Identity α}
    (hstep : ∀ table id, step table id = table ∨ ∃ row, step table id = table.insert id row)
    {ids : List Identity} (hids : ∀ id ∈ ids, property id) {table : Table Identity α} {id : Identity}
    (h : ((ids.foldl step table).lookup id).isSome) : (table.lookup id).isSome ∨ property id := by
  induction ids generalizing table with
  | nil => exact .inl h
  | cons first ids ih =>
      have hrest := ih (fun found hfound => hids found (List.mem_cons_of_mem _ hfound)) h
      rcases hrest with hsome | hproperty
      · rcases hstep table first with hsame | ⟨row, hinsert⟩
        · exact .inl (hsame ▸ hsome)
        · rw [hinsert, Table.lookup_insert_eq] at hsome
          by_cases hid : id = first
          · exact .inr (hid ▸ hids first List.mem_cons_self)
          · rw [if_neg hid] at hsome
            exact .inl hsome
      · exact .inr hproperty

theorem executeMaintenance_putTasks {now : Nat} {db after : Database} (h : executeMaintenance now db = some after)
    {id : Identity} (htask : (after.lifecycle.putTasks.lookup id).isSome) :
    (db.lifecycle.putTasks.lookup id).isSome ∨ after.ended id := by
  rw [executeMaintenance, Option.some.injEq] at h
  subst h
  apply foldl_insert_lookup ?_ ?_ htask
  · intro table found
    split
    · split
      · exact .inr ⟨_, rfl⟩
      · exact .inl rfl
    · exact .inl rfl
  · intro found hfound
    obtain ⟨time, hcandidate⟩ := mem_oldestFirst hfound
    obtain ⟨row, hrow, heq⟩ := List.mem_filterMap.mp hcandidate
    split_ifs at heq with hended
    cases heq
    exact ⟨row.2, Table.mem_entries_iff.mp hrow, hended.1⟩

/-- Only locations that `unreachableSince` accepts are marked. -/
theorem executeMarkUnreachable_eq_some {now : Nat} {db after : Database}
    (h : executeMarkUnreachable now db = some after) :
    ∃ (marked : List Identity) (holds : Text → Text → Bool), after = { db with
        objects := { db.objects with
          locations := db.objects.locations.mapRows fun id location =>
            if marked.contains id ∧ location.state = .available then
              { location with
                state := .tombstoned
                deleteAfter := some (now + deleteGraceSeconds)
                revision := location.revision + 1 }
            else location }
        lifecycle := db.lifecycle.supersede db.journal.putIntents holds } ∧
      ∀ id ∈ marked, ∃ location since, db.objects.locations.lookup id = some location ∧
        unreachableSince db location = some since := by
  rw [executeMarkUnreachable, Option.some.injEq] at h
  refine ⟨_, _, h.symm, ?_⟩
  intro id hid
  obtain ⟨time, hcandidate⟩ := mem_firstByTime hid
  obtain ⟨row, hrow, heq⟩ := List.mem_filterMap.mp hcandidate
  obtain ⟨since, hsince, heq⟩ := Option.bind_eq_some_iff.mp heq
  split_ifs at heq
  cases heq
  exact ⟨row.2, _, Table.mem_entries_iff.mp hrow, hsince⟩

theorem executeLocationComplete_eq_some {id : Identity} {expectedRevision fencingToken now : Nat} {db after : Database}
    {reply : Bool} (h : executeLocationComplete id expectedRevision fencingToken now db = some (after, reply)) :
    ∃ locations locationTasks, after = { db with
        objects := { db.objects with locations }
        lifecycle := { db.lifecycle with locationTasks } } ∧
      (locations = db.objects.locations ∨ ∃ location, db.objects.locations.lookup id = some location ∧
        location.state = .tombstoned ∧ locations = db.objects.locations.insert id
          { location with state := .deleted, revision := location.revision + 1 }) := by
  unfold executeLocationComplete at h
  split at h
  · rename_i task location _ hlocation
    simp only [Option.some.injEq, Prod.mk.injEq] at h
    refine ⟨_, _, h.1.symm, ?_⟩
    split_ifs with hdeletes
    · exact .inr ⟨location, hlocation, hdeletes.1, rfl⟩
    · exact .inl rfl
  · cases h
    exact ⟨db.objects.locations, db.lifecycle.locationTasks, rfl, .inl rfl⟩

/-! ### Frames -/

/-- The statements that work on tasks and leases alone. -/
def Mutation.onTasks : Mutation → Bool
  | .createTasks | .locationClaim _ _ | .locationFail _ _ _ | .putClaim _ _ | .putFinish _ _ _ _
  | .clientClaim _ _ _ _ | .clientRevalidate _ _ _ | .clientComplete _ _ | .clientFail _ _
  | .uploadOpen _ _ | .uploadBind _ _ | .uploadClaim _ _ | .uploadFinish _ _ _ _ | .uploadPrune _
  | .leaseGrant _ | .leaseComplete _ _ _ => true
  | _ => false

/-- The statements that work on location delete tasks. -/
def Mutation.onLocationTasks : Mutation → Bool
  | .createTasks | .locationClaim _ _ | .locationFail _ _ _ => true
  | _ => false

/-- The batches that rewrite the namespace. -/
def Mutation.onNamespace : Mutation → Bool
  | .putCommit _ | .mkdir _ | .remove _ | .rename _ => true
  | _ => false

theorem Mutation.onNamespace_of_onTasks {mutation : Mutation} (h : mutation.onTasks = true) :
    mutation.onNamespace = false := by
  cases mutation <;> first | rfl | cases h

/-- What a statement on tasks and leases makes of them. -/
inductive TaskChange (db : Database) : Mutation → Lifecycle → Prop where
  | unchanged (mutation : Mutation) : TaskChange db mutation db.lifecycle
  | locationTasks {mutation : Mutation} (hlocation : mutation.onLocationTasks = true)
      (locationTasks : Table Identity LocationDeleteTaskRow) :
      TaskChange db mutation { db.lifecycle with locationTasks }
  | putTask (mutation : Mutation) {id : Identity} {task : PutDeleteTaskRow} (new : PutDeleteTaskRow)
      (hfound : db.lifecycle.putTasks.lookup id = some task) :
      TaskChange db mutation { db.lifecycle with putTasks := db.lifecycle.putTasks.insert id new }
  | uploadTasks (mutation : Mutation) (uploadTasks : Table Identity UploadCleanupTaskRow) :
      TaskChange db mutation { db.lifecycle with uploadTasks }
  | leaseGrant {grant : LeaseGrant} {location : LocationRow}
      (hlocation : db.objects.locations.lookup grant.locationId = some location)
      (havailable : location.state = .available) (hfresh : db.lifecycle.readLeases.lookup grant.leaseId = none) :
      TaskChange db (.leaseGrant grant) { db.lifecycle with
        readLeases := db.lifecycle.readLeases.insert grant.leaseId
          ⟨grant.versionId, grant.locationId, grant.tokenId, grant.expiresAt, grant.now, none⟩ }
  | leaseComplete (tokenId : Identity) (leaseIds : List Identity) (now : Nat) :
      TaskChange db (.leaseComplete tokenId leaseIds now) { db.lifecycle with
        readLeases := leaseIds.foldl (completeLease tokenId now) db.lifecycle.readLeases }

theorem updatePutTask_change {db after : Database} {id : Identity} {condition : PutDeleteTaskRow → Bool}
    {change : PutDeleteTaskRow → PutDeleteTaskRow} {reply : Bool} (mutation : Mutation)
    (h : updatePutTask db id condition change = some (after, reply)) :
    ∃ lifecycle, TaskChange db mutation lifecycle ∧ after = { db with lifecycle } := by
  unfold updatePutTask at h
  split at h
  · rename_i task hfound
    split_ifs at h
    · cases h
      exact ⟨_, .putTask mutation _ hfound, rfl⟩
    · cases h
      exact ⟨_, .unchanged _, rfl⟩
  · cases h
    exact ⟨_, .unchanged _, rfl⟩

theorem execute_task_change {mutation : Mutation} {db after : Database} {reply : Bool}
    (h : execute mutation db = some (after, reply)) (htask : mutation.onTasks = true) :
    ∃ lifecycle, TaskChange db mutation lifecycle ∧ after = { db with lifecycle } := by
  cases mutation with
  | createTasks =>
      simp only [execute, executeCreateTasks, Option.map_some, Option.some.injEq, Prod.mk.injEq] at h
      exact ⟨_, .locationTasks rfl _, h.1.symm⟩
  | locationClaim id now =>
      simp only [execute, executeLocationClaim] at h
      split at h
      · split_ifs at h
        · cases h
          exact ⟨_, .locationTasks rfl _, rfl⟩
        · cases h
          exact ⟨_, .unchanged _, rfl⟩
      · cases h
        exact ⟨_, .unchanged _, rfl⟩
  | locationFail id fencingToken retryAt =>
      simp only [execute, executeLocationFail] at h
      split at h
      · split_ifs at h
        all_goals
          cases h
          first
            | exact ⟨_, .unchanged _, rfl⟩
            | exact ⟨_, .locationTasks rfl _, rfl⟩
      · cases h
        exact ⟨_, .unchanged _, rfl⟩
  | putClaim id now =>
      simp only [execute, executePutClaim] at h
      split at h
      · rename_i task hfound
        split_ifs at h
        · cases h
          exact ⟨_, .putTask _ _ hfound, rfl⟩
        · cases h
          exact ⟨_, .unchanged _, rfl⟩
      · cases h
        exact ⟨_, .unchanged _, rfl⟩
  | putFinish id fencingToken outcome now =>
      simp only [execute, executePutFinish] at h
      split at h
      · rename_i task hfound
        split_ifs at h
        · cases h
          exact ⟨_, .putTask _ _ hfound, rfl⟩
        · cases h
          exact ⟨_, .unchanged _, rfl⟩
      · cases h
        exact ⟨_, .unchanged _, rfl⟩
  | clientClaim | clientRevalidate | clientComplete | clientFail => exact updatePutTask_change _ h
  | uploadOpen intentId driverRevision =>
      obtain ⟨found, hfound, heq⟩ := Option.map_eq_some_iff.mp h
      cases heq
      simp only [executeUploadOpen, Option.bind_eq_bind, Option.bind_eq_some_iff] at hfound
      obtain ⟨_, _, _, _, hfound⟩ := hfound
      split_ifs at hfound
      · cases hfound
        exact ⟨_, .unchanged _, rfl⟩
      · cases hfound
        exact ⟨_, .uploadTasks _ _, rfl⟩
  | uploadBind intentId uploadId =>
      simp only [execute, executeUploadBind] at h
      split at h
      · split_ifs at h
        · cases h
          exact ⟨_, .uploadTasks _ _, rfl⟩
        · cases h
          exact ⟨_, .unchanged _, rfl⟩
      · cases h
        exact ⟨_, .unchanged _, rfl⟩
  | uploadClaim id now =>
      simp only [execute, executeUploadClaim] at h
      split at h
      · split_ifs at h
        · cases h
          exact ⟨_, .uploadTasks _ _, rfl⟩
        · cases h
          exact ⟨_, .unchanged _, rfl⟩
      · cases h
        exact ⟨_, .unchanged _, rfl⟩
  | uploadFinish id fencingToken retryAt now =>
      simp only [execute, executeUploadFinish] at h
      split at h
      · split_ifs at h
        all_goals
          cases h
          first
            | exact ⟨_, .unchanged _, rfl⟩
            | exact ⟨_, .uploadTasks _ _, rfl⟩
      · cases h
        exact ⟨_, .unchanged _, rfl⟩
  | uploadPrune now =>
      simp only [execute, executeUploadPrune, Option.map_some, Option.some.injEq, Prod.mk.injEq] at h
      exact ⟨_, .uploadTasks _ _, h.1.symm⟩
  | leaseGrant grant =>
      simp only [execute, executeLeaseGrant] at h
      split at h
      · rename_i version location _ hlocation
        split_ifs at h with havailable hfresh
        · cases h
          exact ⟨_, .leaseGrant hlocation havailable.2.2 (Option.isNone_iff_eq_none.mp hfresh.1), rfl⟩
        · cases h
          exact ⟨_, .unchanged _, rfl⟩
      · cases h
        exact ⟨_, .unchanged _, rfl⟩
  | leaseComplete tokenId leaseIds now =>
      simp only [execute, executeLeaseComplete, require_bind_eq_some, Option.some.injEq, Prod.mk.injEq] at h
      exact ⟨_, .leaseComplete _ _ _, h.2.1.symm⟩
  | _ => cases htask

/-- What any committed batch did, by kind. -/
inductive Committed (db after : Database) : Mutation → Prop where
  | putCommit {batch : PutCommitBatch} {intent : PutIntentRow} (h : PutCommitted batch intent db after) :
      Committed db after (.putCommit batch)
  | mkdir {batch : MkdirBatch} (h : MkdirCommitted batch db after) : Committed db after (.mkdir batch)
  | remove {batch : RemoveBatch} (h : RemoveCommitted batch db after) : Committed db after (.remove batch)
  | rename {batch : RenameBatch} (h : RenameCommitted batch db after) : Committed db after (.rename batch)
  | putPrepare {batch : PutPrepareBatch} (h : executePutPrepare batch db = some after) :
      Committed db after (.putPrepare batch)
  | evidence {batch : EvidenceBatch} (h : executeEvidence batch db = some after) :
      Committed db after (.evidence batch)
  | tokenIssue {batch : TokenIssueBatch} (h : executeTokenIssue batch db = some after) :
      Committed db after (.tokenIssue batch)
  | tokenRevoke {batch : TokenRevokeBatch} (h : executeTokenRevoke batch db = some after) :
      Committed db after (.tokenRevoke batch)
  | aclReplace {batch : AclReplaceBatch} (h : executeAclReplace batch db = some after) :
      Committed db after (.aclReplace batch)
  | placementReplace {batch : PlacementReplaceBatch} (h : executePlacementReplace batch db = some after) :
      Committed db after (.placementReplace batch)
  | maintenance {now : Nat} (h : executeMaintenance now db = some after) : Committed db after (.maintenance now)
  | markUnreachable {now : Nat} (h : executeMarkUnreachable now db = some after) :
      Committed db after (.markUnreachable now)
  | locationComplete {id : Identity} {expectedRevision fencingToken now : Nat} {reply : Bool}
      (h : executeLocationComplete id expectedRevision fencingToken now db = some (after, reply)) :
      Committed db after (.locationComplete id expectedRevision fencingToken now)
  | task {mutation : Mutation} (lifecycle : Lifecycle) (htask : mutation.onTasks = true)
      (hchange : TaskChange db mutation lifecycle) (h : after = { db with lifecycle }) : Committed db after mutation

private theorem eq_some_of_map {result : Option Database} {after : Database} {reply : Bool}
    (h : result.map (·, true) = some (after, reply)) : result = some after := by
  obtain ⟨found, hfound, heq⟩ := Option.map_eq_some_iff.mp h
  rw [hfound, (Prod.mk.inj heq).1]

theorem execute_committed {mutation : Mutation} {db after : Database} {reply : Bool}
    (h : execute mutation db = some (after, reply)) : Committed db after mutation := by
  cases mutation with
  | putPrepare batch => exact .putPrepare (eq_some_of_map h)
  | evidence batch => exact .evidence (eq_some_of_map h)
  | putCommit batch =>
      obtain ⟨intent, hcommitted⟩ := executePutCommit_eq_some (eq_some_of_map h)
      exact .putCommit hcommitted
  | mkdir batch => exact .mkdir (executeMkdir_eq_some (eq_some_of_map h))
  | remove batch => exact .remove (executeRemove_eq_some (eq_some_of_map h))
  | rename batch => exact .rename (executeRename_eq_some (eq_some_of_map h))
  | tokenIssue batch => exact .tokenIssue (eq_some_of_map h)
  | tokenRevoke batch => exact .tokenRevoke (eq_some_of_map h)
  | aclReplace batch => exact .aclReplace (eq_some_of_map h)
  | placementReplace batch => exact .placementReplace (eq_some_of_map h)
  | maintenance now => exact .maintenance (eq_some_of_map h)
  | markUnreachable now => exact .markUnreachable (eq_some_of_map h)
  | locationComplete id expectedRevision fencingToken now => exact .locationComplete h
  | createTasks | locationClaim | locationFail | putClaim | putFinish | clientClaim | clientRevalidate | clientComplete
  | clientFail | uploadOpen | uploadBind | uploadClaim | uploadFinish | uploadPrune | leaseGrant | leaseComplete =>
      obtain ⟨lifecycle, hchange, hafter⟩ := execute_task_change h rfl
      exact .task lifecycle rfl hchange hafter

/-- A property of the database that drift and every permitted batch preserve holds in each reachable state. -/
theorem Reachable.state_invariant {prims : Primitives} {permit : Moment Database Mutation → Mutation → Prop}
    {start : Database} {system : ControlState} (inv : Database → Prop)
    (hdrift : ∀ before after, inv before → Drift before after → inv after)
    (hcommit : ∀ moment mutation after, inv moment.state → permit moment mutation →
      Committed moment.state after mutation → inv after)
    (hstart : inv start) (hrun : Reachable prims permit start system) : inv system.state := by
  have hmoment := Machine.invariant (fun moment after => hdrift moment.state after)
    (fun moment mutation after reply hinv hpermit hexecute =>
      hcommit moment mutation after hinv hpermit (execute_committed hexecute))
    (show (fun moment : Moment Database Mutation => inv moment.state) _ from hstart) hrun
  exact hmoment

/-- A relation that drift and every permitted batch respect holds between the ends of a run. -/
theorem runs_relate {prims : Primitives} {permit : Moment Database Mutation → Mutation → Prop}
    {system later : ControlState} (relate : Database → Database → Prop) (hrefl : ∀ db, relate db db)
    (htrans : ∀ {first second third}, relate first second → relate second third → relate first third)
    (hdrift : ∀ {before after}, Drift before after → relate before after)
    (hcommit : ∀ {moment : Moment Database Mutation} {mutation after}, permit moment mutation →
      Committed moment.state after mutation → relate moment.state after)
    (hrun : (controlPlane prims).Runs permit system later) : relate system.state later.state := by
  induction hrun with
  | refl => exact hrefl _
  | tail _ hstep ih =>
      cases hstep with
      | start _ => exact ih
      | drift hchange => exact htrans ih (hdrift hchange)
      | read _ => exact ih
      | commit _ hpermit hexecute _ => exact htrans ih (hcommit hpermit (execute_committed hexecute))
      | abort _ => exact ih
      | answer _ _ => exact ih

theorem Drift.tree_eq {before after : Database} (h : Drift before after) : after.tree = before.tree := by
  obtain ⟨_, _, _, rfl⟩ := h
  rfl

/-- What the passage of time makes of a location: nothing, a tombstone once nothing reaches it, or the record of its
deletion. -/
structure LocationRow.Ages (db : Database) (old new : LocationRow) : Prop where
  versionId : new.versionId = old.versionId
  driverId : new.driverId = old.driverId
  storageKey : new.storageKey = old.storageKey
  sizeBytes : new.sizeBytes = old.sizeBytes
  state : new.state = old.state ∨
    (old.state = .available ∧ (unreachableSince db old).isSome ∧ new.state = .tombstoned) ∨
    (old.state = .tombstoned ∧ new.state = .deleted)

theorem LocationRow.Ages.refl (db : Database) (row : LocationRow) : row.Ages db row :=
  ⟨rfl, rfl, rfl, rfl, .inl rfl⟩

structure LocationsAge (db : Database) (locations : Table Identity LocationRow) : Prop where
  forward : ∀ id old, db.objects.locations.lookup id = some old →
    ∃ new, locations.lookup id = some new ∧ old.Ages db new
  backward : ∀ id new, locations.lookup id = some new →
    ∃ old, db.objects.locations.lookup id = some old ∧ old.Ages db new

theorem LocationsAge.refl (db : Database) : LocationsAge db db.objects.locations :=
  ⟨fun _ old hold => ⟨old, hold, .refl db old⟩, fun _ new hnew => ⟨new, hnew, .refl db new⟩⟩

theorem LocationsAge.of_map {db : Database} {locations : Table Identity LocationRow}
    (change : Identity → LocationRow → LocationRow)
    (hlookup : ∀ id, locations.lookup id = (db.objects.locations.lookup id).map (change id))
    (hages : ∀ id row, db.objects.locations.lookup id = some row → row.Ages db (change id row)) :
    LocationsAge db locations where
  forward := by
    intro id old hold
    exact ⟨change id old, by rw [hlookup, hold, Option.map_some], hages id old hold⟩
  backward := by
    intro id new hnew
    rw [hlookup, Option.map_eq_some_iff] at hnew
    obtain ⟨old, hold, rfl⟩ := hnew
    exact ⟨old, hold, hages id old hold⟩

theorem executeMarkUnreachable_ages {now : Nat} {db after : Database}
    (h : executeMarkUnreachable now db = some after) :
    ∃ locations, after.objects = { db.objects with locations } ∧ LocationsAge db locations := by
  obtain ⟨marked, _, rfl, hmarked⟩ := executeMarkUnreachable_eq_some h
  refine ⟨_, rfl, .of_map _ (fun id => Table.lookup_mapRows _ _ _) ?_⟩
  intro id row hrow
  split_ifs with hmark
  · obtain ⟨location, since, hlocation, hsince⟩ := hmarked id (List.contains_iff_mem.mp hmark.1)
    rw [hrow] at hlocation
    cases hlocation
    exact ⟨rfl, rfl, rfl, rfl, .inr (.inl ⟨hmark.2, by rw [hsince]; rfl, rfl⟩)⟩
  · exact .refl db row

theorem executeLocationComplete_ages {id : Identity} {expectedRevision fencingToken now : Nat} {db after : Database}
    {reply : Bool} (h : executeLocationComplete id expectedRevision fencingToken now db = some (after, reply)) :
    ∃ locations, after.objects = { db.objects with locations } ∧ LocationsAge db locations := by
  obtain ⟨locations, _, rfl, hlocations⟩ := executeLocationComplete_eq_some h
  refine ⟨_, rfl, ?_⟩
  rcases hlocations with rfl | ⟨location, hlocation, hstate, rfl⟩
  · exact .refl db
  · apply LocationsAge.of_map fun found row =>
      if found = id then { row with state := .deleted, revision := row.revision + 1 } else row
    · intro found
      rw [Table.lookup_insert_eq]
      split_ifs with hid
      · rw [hid, hlocation, Option.map_some]
      · rw [Option.map_id']
    · intro found row hrow
      split_ifs with hid
      · rw [hid, hlocation] at hrow
        cases hrow
        exact ⟨rfl, rfl, rfl, rfl, .inr (.inr ⟨hstate, rfl⟩)⟩
      · exact .refl db row

theorem Committed.store_cases {db after : Database} {mutation : Mutation} (h : Committed db after mutation) :
    (∃ batch intent, mutation = .putCommit batch ∧ PutCommitted batch intent db after) ∨
      (∃ batch, mutation = .mkdir batch ∧ MkdirCommitted batch db after) ∨
      (∃ batch, mutation = .remove batch ∧ RemoveCommitted batch db after) ∨
      (∃ batch, mutation = .rename batch ∧ RenameCommitted batch db after) ∨
      (mutation.onNamespace = false ∧ after.tree = db.tree ∧
        ∃ locations, after.objects = { db.objects with locations } ∧ LocationsAge db locations) := by
  have hsame : mutation.onNamespace = false → after.tree = db.tree → after.objects = db.objects →
      mutation.onNamespace = false ∧ after.tree = db.tree ∧
        ∃ locations, after.objects = { db.objects with locations } ∧ LocationsAge db locations :=
    fun hother htree hobjects => ⟨hother, htree, db.objects.locations, hobjects, .refl db⟩
  cases h with
  | putCommit h => exact .inl ⟨_, _, rfl, h⟩
  | mkdir h => exact .inr (.inl ⟨_, rfl, h⟩)
  | remove h => exact .inr (.inr (.inl ⟨_, rfl, h⟩))
  | rename h => exact .inr (.inr (.inr (.inl ⟨_, rfl, h⟩)))
  | putPrepare h =>
      rcases executePutPrepare_eq_some h with rfl | ⟨rfl, _⟩
      · exact .inr (.inr (.inr (.inr (hsame rfl rfl rfl))))
      · exact .inr (.inr (.inr (.inr (hsame rfl rfl rfl))))
  | evidence h =>
      obtain ⟨_, rfl⟩ := executeEvidence_eq_some h
      exact .inr (.inr (.inr (.inr (hsame rfl rfl rfl))))
  | tokenIssue h =>
      obtain ⟨_, _, _, rfl⟩ := executeTokenIssue_eq_some h
      exact .inr (.inr (.inr (.inr (hsame rfl rfl rfl))))
  | tokenRevoke h =>
      obtain ⟨_, _, _, _, rfl⟩ := executeTokenRevoke_eq_some h
      exact .inr (.inr (.inr (.inr (hsame rfl rfl rfl))))
  | aclReplace h =>
      obtain ⟨_, _, _, _, rfl⟩ := executeAclReplace_eq_some h
      exact .inr (.inr (.inr (.inr (hsame rfl rfl rfl))))
  | placementReplace h =>
      obtain ⟨_, _, _, _, _, rfl⟩ := executePlacementReplace_eq_some h
      exact .inr (.inr (.inr (.inr (hsame rfl rfl rfl))))
  | maintenance h =>
      obtain ⟨_, _, rfl, _⟩ := executeMaintenance_eq_some h
      exact .inr (.inr (.inr (.inr (hsame rfl rfl rfl))))
  | markUnreachable h =>
      have hages := executeMarkUnreachable_ages h
      obtain ⟨_, _, rfl, _⟩ := executeMarkUnreachable_eq_some h
      exact .inr (.inr (.inr (.inr ⟨rfl, rfl, hages⟩)))
  | locationComplete h =>
      have hages := executeLocationComplete_ages h
      obtain ⟨_, _, rfl, _⟩ := executeLocationComplete_eq_some h
      exact .inr (.inr (.inr (.inr ⟨rfl, rfl, hages⟩)))
  | task lifecycle htask _ h =>
      subst h
      exact .inr (.inr (.inr (.inr (hsame (Mutation.onNamespace_of_onTasks htask) rfl rfl))))

theorem Committed.tree_cases {db after : Database} {mutation : Mutation} (h : Committed db after mutation) :
    (∃ batch intent, mutation = .putCommit batch ∧ PutCommitted batch intent db after) ∨
      (∃ batch, mutation = .mkdir batch ∧ MkdirCommitted batch db after) ∨
      (∃ batch, mutation = .remove batch ∧ RemoveCommitted batch db after) ∨
      (∃ batch, mutation = .rename batch ∧ RenameCommitted batch db after) ∨
      (mutation.onNamespace = false ∧ after.tree = db.tree) := by
  rcases h.store_cases with hput | hmkdir | hremove | hrename | ⟨hother, hsame, _⟩
  · exact .inl hput
  · exact .inr (.inl hmkdir)
  · exact .inr (.inr (.inl hremove))
  · exact .inr (.inr (.inr (.inl hrename)))
  · exact .inr (.inr (.inr (.inr ⟨hother, hsame⟩)))

theorem Committed.surroundings {db after : Database} {mutation : Mutation} (h : Committed db after mutation) :
    after.surroundings = db.surroundings := by
  cases h with
  | putCommit h => exact h.surroundings
  | mkdir h => exact h.surroundings
  | remove h => exact h.surroundings
  | rename h => exact h.surroundings
  | putPrepare h =>
      rcases executePutPrepare_eq_some h with rfl | ⟨rfl, _⟩
      · rfl
      · rfl
  | evidence h =>
      obtain ⟨_, rfl⟩ := executeEvidence_eq_some h
      rfl
  | tokenIssue h =>
      obtain ⟨_, _, _, rfl⟩ := executeTokenIssue_eq_some h
      rfl
  | tokenRevoke h =>
      obtain ⟨_, _, _, _, rfl⟩ := executeTokenRevoke_eq_some h
      rfl
  | aclReplace h =>
      obtain ⟨_, _, _, _, rfl⟩ := executeAclReplace_eq_some h
      rfl
  | placementReplace h =>
      obtain ⟨_, _, _, _, _, rfl⟩ := executePlacementReplace_eq_some h
      rfl
  | maintenance h =>
      obtain ⟨_, _, rfl, _⟩ := executeMaintenance_eq_some h
      rfl
  | markUnreachable h =>
      obtain ⟨_, _, rfl, _⟩ := executeMarkUnreachable_eq_some h
      rfl
  | locationComplete h =>
      obtain ⟨_, _, rfl, _⟩ := executeLocationComplete_eq_some h
      rfl
  | task lifecycle _ _ h =>
      subst h
      rfl

theorem Committed.intents_cases {db after : Database} {mutation : Mutation} (h : Committed db after mutation) :
    (∃ batch, mutation = .putPrepare batch ∧ executePutPrepare batch db = some after) ∨
      (∃ batch intent, mutation = .putCommit batch ∧ PutCommitted batch intent db after) ∨
      (∃ now, mutation = .maintenance now ∧ executeMaintenance now db = some after) ∨
      after.journal.putIntents = db.journal.putIntents := by
  cases h with
  | putPrepare h => exact .inl ⟨_, rfl, h⟩
  | putCommit h => exact .inr (.inl ⟨_, _, rfl, h⟩)
  | maintenance h => exact .inr (.inr (.inl ⟨_, rfl, h⟩))
  | mkdir h =>
      obtain ⟨_, _, hpublish, hjournal⟩ := h.journal
      obtain ⟨_, _, rfl⟩ := Journal.publish_eq_some hpublish
      exact .inr (.inr (.inr (by rw [hjournal])))
  | remove h =>
      obtain ⟨_, _, hpublish, hjournal⟩ := h.journal
      obtain ⟨_, _, rfl⟩ := Journal.publish_eq_some hpublish
      exact .inr (.inr (.inr (by rw [hjournal])))
  | rename h =>
      obtain ⟨_, _, hpublish, hjournal⟩ := h.journal
      obtain ⟨_, _, rfl⟩ := Journal.publish_eq_some hpublish
      exact .inr (.inr (.inr (by rw [hjournal])))
  | evidence h =>
      obtain ⟨_, rfl⟩ := executeEvidence_eq_some h
      exact .inr (.inr (.inr rfl))
  | tokenIssue h =>
      obtain ⟨_, _, _, rfl⟩ := executeTokenIssue_eq_some h
      exact .inr (.inr (.inr rfl))
  | tokenRevoke h =>
      obtain ⟨_, _, _, _, rfl⟩ := executeTokenRevoke_eq_some h
      exact .inr (.inr (.inr rfl))
  | aclReplace h =>
      obtain ⟨_, _, _, _, rfl⟩ := executeAclReplace_eq_some h
      exact .inr (.inr (.inr rfl))
  | placementReplace h =>
      obtain ⟨_, _, _, _, _, rfl⟩ := executePlacementReplace_eq_some h
      exact .inr (.inr (.inr rfl))
  | markUnreachable h =>
      obtain ⟨_, _, rfl, _⟩ := executeMarkUnreachable_eq_some h
      exact .inr (.inr (.inr rfl))
  | locationComplete h =>
      obtain ⟨_, _, rfl, _⟩ := executeLocationComplete_eq_some h
      exact .inr (.inr (.inr rfl))
  | task lifecycle _ _ h =>
      subst h
      exact .inr (.inr (.inr rfl))

end Skydriver
