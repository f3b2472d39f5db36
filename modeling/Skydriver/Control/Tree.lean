import Skydriver.Control.Schema

/-!
# Statements on the namespace tables

Each definition is one SQL statement on `vfs_directories` or `vfs_directory_entries`, with the constraints and triggers
that guard it.  A statement whose `WHERE` clause matches nothing changes nothing; a violated constraint or a raising
trigger aborts the whole batch, which is `none`.
-/

namespace Skydriver

/-- Continue unless a constraint or trigger aborts. -/
def require (condition : Bool) : Option Unit := if condition then some () else none

@[simp] theorem require_eq_some {condition : Bool} {done : Unit} : require condition = some done ↔ condition = true := by
  cases condition <;> simp [require]

@[simp] theorem require_bind_eq_some {β : Type} {condition : Bool} {next : Unit → Option β} {result : β} :
    (require condition >>= next) = some result ↔ condition = true ∧ next () = some result := by
  cases condition <;> simp [require]

/-- The name check of both namespace tables. -/
def isStoredName (name : Text) : Bool :=
  !name.isEmpty && name.length ≤ 255 && name != utf8 "." && name != utf8 ".." && !name.contains 47 && !name.contains 0

/-- The Merkle entry a stored row stands for. -/
def EntryContent.merkle (name : Text) : EntryContent → DirectoryMerkleEntry
  | .file fileId versionId sizeBytes dataRoot metadataRoot =>
      .file name fileId versionId sizeBytes dataRoot metadataRoot
  | .directory childDirectoryId dataRoot => .directory name childDirectoryId dataRoot

/-- Both unique indexes of the entry table: at most one entry for a file and one for a child directory. -/
def EntryContent.sameSubject : EntryContent → EntryContent → Bool
  | .file left _ _ _ _, .file right _ _ _ _ => left == right
  | .directory left _, .directory right _ => left == right
  | _, _ => false

/-- The file or directory an entry pins. -/
def EntryContent.subjectId : EntryContent → Identity
  | .file fileId _ _ _ _ => fileId
  | .directory childDirectoryId _ => childDirectoryId

/-- One row of an ordered entry listing. -/
structure StoredEntry where
  entry : DirectoryMerkleEntry
  revision : Nat
deriving DecidableEq

/-- The compare-and-swap of one directory root.  `newEntries` is the listing whose root is `newRoot`; the planner
computed the root from it, and no statement reads it. -/
structure DirectoryUpdate where
  directoryId : Identity
  expectedRevision : Nat
  expectedRoot : Digest
  newRoot : Digest
  newEntries : List DirectoryMerkleEntry
deriving DecidableEq

/-- The replacement of one child root inside its parent directory. -/
structure LinkUpdate where
  parentDirectoryId : Identity
  childDirectoryId : Identity
  name : Text
  expectedRevision : Nat
  newChildRoot : Digest
deriving DecidableEq

/-- What one namespace mutation does to the directory roots. -/
structure RootPlan where
  directories : List DirectoryUpdate
  links : List LinkUpdate
  root : Digest
deriving DecidableEq

namespace Tree

/-- The directory and every directory above it. -/
def ancestors (tree : Tree) (directoryId : Identity) : List Identity :=
  (tree.directories.lineage DirectoryRow.parentId directoryId).map Prod.fst

/-- `SELECT … FROM vfs_directory_entries WHERE directory_id = ? ORDER BY CAST(name AS BLOB)`. -/
def storedEntries (tree : Tree) (directoryId : Identity) : List StoredEntry :=
  KeyOrder.sortByKey (fun stored => entryName stored.entry)
    ((tree.entries.entries.filter fun row => row.1.1 == directoryId).map fun row =>
      ⟨row.2.content.merkle row.1.2, row.2.revision⟩)

def listing (tree : Tree) (directoryId : Identity) : List DirectoryMerkleEntry :=
  (tree.storedEntries directoryId).map StoredEntry.entry

/-- Triggers `validate_vfs_directory_entry` and `validate_vfs_directory_entry_update`. -/
def directoryEntryMatches (tree : Tree) (directoryId : Identity) (name : Text) (childDirectoryId : Identity)
    (dataRoot : Digest) : Bool :=
  match tree.directories.lookup childDirectoryId, tree.directories.lookup directoryId with
  | some child, some parent =>
      parent.filesystemId == child.filesystemId && child.parentId == some directoryId && child.name == name &&
        child.dataRoot == dataRoot && child.state == .active
  | _, _ => false

/-- Triggers `validate_vfs_file_entry` and `validate_vfs_file_entry_update`. -/
def fileEntryMatches (tree : Tree) (objects : Objects) (directoryId fileId versionId : Identity) (sizeBytes : UInt64)
    (dataRoot : Digest) : Bool :=
  match objects.versions.lookup versionId, objects.files.lookup fileId, tree.directories.lookup directoryId with
  | some version, some file, some directory =>
      version.fileId == fileId && directory.filesystemId == file.filesystemId && version.state == .published &&
        version.description.plaintextBytes == sizeBytes && version.description.fileRoot == dataRoot
  | _, _, _ => false

/-- The trigger that guards an entry of either kind. -/
def entryMatches (tree : Tree) (objects : Objects) (directoryId : Identity) (name : Text) : EntryContent → Bool
  | .file fileId versionId sizeBytes dataRoot _ =>
      tree.fileEntryMatches objects directoryId fileId versionId sizeBytes dataRoot
  | .directory childDirectoryId dataRoot => tree.directoryEntryMatches directoryId name childDirectoryId dataRoot

/-- `INSERT INTO vfs_directory_entries`. -/
def insertEntry (objects : Objects) (directoryId : Identity) (name : Text) (row : EntryRow) (tree : Tree) :
    Option Tree := do
  require (isStoredName name)
  require (tree.entries.lookup (directoryId, name)).isNone
  require !(tree.entries.any fun _ other => other.content.sameSubject row.content)
  require (tree.entryMatches objects directoryId name row.content)
  some { tree with entries := tree.entries.insert (directoryId, name) row }

/-- `DELETE FROM vfs_directory_entries WHERE directory_id = ? AND name = ? AND revision = ?`. -/
def deleteEntry (directoryId : Identity) (name : Text) (revision : Nat) (tree : Tree) : Tree :=
  match tree.entries.lookup (directoryId, name) with
  | some row =>
      if row.revision = revision then { tree with entries := tree.entries.erase (directoryId, name) } else tree
  | none => tree

/-- The put protocol's `UPDATE vfs_directory_entries … WHERE kind = 'file' AND file_id = ? AND version_id = ? AND
revision = ?`. -/
def updateFileEntry (objects : Objects) (directoryId : Identity) (name : Text) (fileId expectedVersionId : Identity)
    (expectedRevision : Nat) (versionId : Identity) (sizeBytes : UInt64) (dataRoot metadataRoot : Digest)
    (tree : Tree) : Option Tree :=
  match tree.entries.lookup (directoryId, name) with
  | some ⟨.file found foundVersion _ _ _, revision⟩ =>
      if found = fileId ∧ foundVersion = expectedVersionId ∧ revision = expectedRevision then do
        require (tree.fileEntryMatches objects directoryId fileId versionId sizeBytes dataRoot)
        some { tree with
          entries := tree.entries.insert (directoryId, name)
            ⟨.file fileId versionId sizeBytes dataRoot metadataRoot, revision + 1⟩ }
      else some tree
  | _ => some tree

/-- `UPDATE vfs_directories SET data_root = ?, revision = revision + 1 WHERE id = ? AND revision = ? AND
data_root = ?`. -/
def updateDirectoryRoot (tree : Tree) (update : DirectoryUpdate) : Tree :=
  { tree with
    directories := tree.directories.modify update.directoryId fun row =>
      if row.revision = update.expectedRevision ∧ row.dataRoot = update.expectedRoot then
        { row with dataRoot := update.newRoot, revision := row.revision + 1 }
      else row }

/-- `UPDATE vfs_directory_entries SET data_root = ?, revision = revision + 1 WHERE directory_id = ? AND name = ? AND
kind = 'directory' AND child_directory_id = ? AND revision = ?`. -/
def updateLink (tree : Tree) (link : LinkUpdate) : Option Tree :=
  match tree.entries.lookup (link.parentDirectoryId, link.name) with
  | some ⟨.directory child _, revision⟩ =>
      if child = link.childDirectoryId ∧ revision = link.expectedRevision then do
        require (tree.directoryEntryMatches link.parentDirectoryId link.name child link.newChildRoot)
        some { tree with
          entries := tree.entries.insert (link.parentDirectoryId, link.name)
            ⟨.directory child link.newChildRoot, revision + 1⟩ }
      else some tree
  | _ => some tree

/-- The statements of put, mkdir and remove that walk the plan: each directory update is followed by the link of the
same position, if the plan has one. -/
def applyChain : List DirectoryUpdate → List LinkUpdate → Tree → Option Tree
  | [], _, tree => some tree
  | update :: updates, [], tree => applyChain updates [] (tree.updateDirectoryRoot update)
  | update :: updates, link :: links, tree => do
      let tree ← (tree.updateDirectoryRoot update).updateLink link
      applyChain updates links tree

/-- The statements of rename that walk the plan: every directory update, then every link. -/
def applyBranches (updates : List DirectoryUpdate) (links : List LinkUpdate) (tree : Tree) : Option Tree :=
  links.foldlM updateLink (updates.foldl updateDirectoryRoot tree)

/-- `INSERT INTO vfs_directories`: primary key, parent in the same filesystem, one name under one parent whatever the
state of the row that holds it, no self parent, and the name check. -/
def insertDirectory (directoryId : Identity) (row : DirectoryRow) (parentId : Identity) (tree : Tree) : Option Tree := do
  require (directoryId ≠ .zero 16 && (tree.directories.lookup directoryId).isNone)
  require !(tree.directories.any fun _ other =>
    other.filesystemId == row.filesystemId && other.parentId == some parentId && other.name == row.name)
  require ((tree.directories.lookup parentId).any fun parent => parent.filesystemId == row.filesystemId)
  require (isStoredName row.name && parentId ≠ directoryId)
  some { tree with directories := tree.directories.insert directoryId { row with parentId := some parentId } }

/-- Rename's `UPDATE vfs_directories SET parent_id = ?, name = ?, revision = revision + 1 WHERE id = ? AND
parent_id = ? AND name = ? AND state = 'active'`, under the cycle trigger and the same uniqueness. -/
def moveDirectory (directoryId sourceId : Identity) (sourceName : Text) (destinationId : Identity)
    (destinationName : Text) (tree : Tree) : Option Tree :=
  match tree.directories.lookup directoryId with
  | some row =>
      if row.parentId = some sourceId ∧ row.name = sourceName ∧ row.state = .active then do
        require !((tree.ancestors destinationId).contains directoryId)
        require !(tree.directories.any fun id other =>
          id != directoryId && other.filesystemId == row.filesystemId && other.parentId == some destinationId &&
            other.name == destinationName)
        require ((tree.directories.lookup destinationId).any fun parent => parent.filesystemId == row.filesystemId)
        require (isStoredName destinationName)
        some { tree with
          directories := tree.directories.insert directoryId
            { row with parentId := some destinationId, name := destinationName, revision := row.revision + 1 } }
      else some tree
  | none => some tree

/-- Remove's `UPDATE vfs_directories SET state = 'tombstoned', revision = revision + 1 WHERE id = ? AND
state = 'active'`. -/
def tombstoneDirectory (directoryId : Identity) (tree : Tree) : Tree :=
  { tree with
    directories := tree.directories.modify directoryId fun row =>
      if row.state = .active then { row with state := .tombstoned, revision := row.revision + 1 } else row }

/-! ### Checks on a plan -/

/-- The constraints of the three `…_directory_updates` tables: one update for a directory, an existing directory, and
a root that changes. -/
def updatesWellFormed (tree : Tree) (updates : List DirectoryUpdate) : Bool :=
  decide (updates.map DirectoryUpdate.directoryId).Nodup && updates.all fun update =>
    (tree.directories.lookup update.directoryId).isSome && update.expectedRoot != update.newRoot &&
      update.expectedRevision > 0

/-- Triggers `validate_vfs_put_directory_update_insert` and `validate_vfs_directory_create_update_insert`: the updates
are a current chain of ancestors from `target`. -/
def chainCurrent (tree : Tree) (filesystemId : Identity) : Identity → List DirectoryUpdate → Bool
  | _, [] => true
  | target, update :: updates =>
      update.directoryId == target &&
        match tree.directories.lookup update.directoryId with
        | none => false
        | some row =>
            row.filesystemId == filesystemId && row.revision == update.expectedRevision &&
              row.dataRoot == update.expectedRoot &&
                match row.parentId, updates with
                | _, [] => true
                | none, _ => false
                | some parentId, _ => tree.chainCurrent filesystemId parentId updates

/-- Every update of the plan has taken effect. -/
def updatesApplied (tree : Tree) (updates : List DirectoryUpdate) : Bool :=
  updates.all fun update =>
    (tree.directories.lookup update.directoryId).any fun row =>
      row.revision == update.expectedRevision + 1 && row.dataRoot == update.newRoot

/-- The last checks of the put and mkdir commit triggers: each parent of the chain links the new root of its child, and
the chain ends at a root directory whose new root is the catalog's. -/
def chainLinked (tree : Tree) (root : Digest) : List DirectoryUpdate → Bool
  | [] => false
  | [last] =>
      (tree.directories.lookup last.directoryId).any fun row => row.parentId.isNone && root == last.newRoot
  | child :: parent :: rest =>
      ((tree.directories.lookup child.directoryId).any fun row =>
        (tree.entries.lookup (parent.directoryId, row.name)).any fun entry =>
          entry.content == .directory child.directoryId child.newRoot) &&
        tree.chainLinked root (parent :: rest)

end Tree

end Skydriver
