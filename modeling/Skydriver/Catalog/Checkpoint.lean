import Skydriver.Integrity.Directory
import Skydriver.Lib.Worklist

/-!
# Catalog checkpoints and their validation

A checkpoint is a flat list of directory nodes received from outside.  `validateCatalogCheckpoint` bounds it, checks
its canonical order and Merkle roots node by node, and then walks the directory links from the root.  Nothing about the
links is known before the walk: they may be cyclic, shared, dangling or duplicated.
-/

namespace Skydriver

open Checked

def catalogCheckpointSchema : Text := utf8 "skydriver.vfs.catalog-checkpoint.v1"
def maximumCatalogDirectories : Nat := 5000
def maximumCatalogEntries : Nat := 20000

inductive CatalogCheckpointEntryKind where
  | file
  | directory
deriving DecidableEq

/-- One immutable file or child-directory entry in a checkpoint. -/
structure CatalogCheckpointEntry where
  name : Text
  kind : CatalogCheckpointEntryKind
  fileId : Option Text
  versionId : Option Text
  childDirectoryId : Option Text
  sizeBytes : UInt64
  dataRoot : Text
  metadataRoot : Option Text
deriving DecidableEq

structure CatalogCheckpointDirectory where
  directoryId : Text
  parentDirectoryId : Option Text
  name : Text
  dataRoot : Text
  entries : List CatalogCheckpointEntry
deriving DecidableEq

/-- One complete immutable filesystem catalog checkpoint. -/
structure CatalogCheckpoint where
  schema : Text
  filesystemId : Text
  revisionId : UInt64
  parentRevisionId : Option UInt64
  rootDirectoryId : Text
  rootDataRoot : Text
  createdAt : UInt64
  directories : List CatalogCheckpointDirectory
deriving DecidableEq

/-- Decode exactly `width` bytes of lowercase hexadecimal text, refusing the all-zero identity. -/
def decodeHex (width : Nat) (value : Text) (message : String) : Except Error (Bytes width) := do
  ensure (.invalidInput message)
    (value.length == width * 2 && !value.all (· == 48) && value.all fun byte => (hexValue byte).isSome)
  let bytes ← (hexDecode value).orFail (.invalidInput message)
  if hlength : bytes.length = width then .ok ⟨bytes, hlength⟩ else .error (.invalidInput message)

def merkleEntry (entry : CatalogCheckpointEntry) : Except Error DirectoryMerkleEntry := do
  let dataRoot ← decodeHex 32 entry.dataRoot "catalog entry data root"
  match entry.kind, entry.fileId, entry.versionId, entry.childDirectoryId, entry.metadataRoot with
  | .file, some fileId, some versionId, none, some metadataRoot => do
      let stableId ← decodeHex 16 fileId "catalog file identity"
      let versionId ← decodeHex 16 versionId "catalog version identity"
      let metadataRoot ← decodeHex 32 metadataRoot "catalog metadata root"
      .ok (.file entry.name stableId versionId entry.sizeBytes dataRoot metadataRoot)
  | .directory, none, none, some childDirectoryId, none => do
      ensure (.invalidInput "catalog entry union is invalid") (entry.sizeBytes == 0)
      let stableId ← decodeHex 16 childDirectoryId "catalog child identity"
      .ok (.directory entry.name stableId dataRoot)
  | _, _, _, _, _ => .error (.invalidInput "catalog entry union is invalid")

/-- A parent identity is well formed and differs from the directory itself. -/
def validateParent (directory : CatalogCheckpointDirectory) : Except Error Unit :=
  match directory.parentDirectoryId with
  | none => .ok ()
  | some parent => do
      let _ ← decodeHex 16 parent "catalog parent directory identity"
      ensure (.invalidInput "catalog directory is self-parented") (parent ≠ directory.directoryId)

/-- Entries are canonically ordered and hash to the expected root. -/
def validateEntries (prims : Primitives) (directory : CatalogCheckpointDirectory) (expectedRoot : Digest) :
    Except Error Unit := do
  ensure (.invalidInput "catalog entries are not canonically ordered")
    (KeyOrder.windowsAscend CatalogCheckpointEntry.name directory.entries)
  let merkleEntries ← Checked.traverse merkleEntry directory.entries
  let root ← directoryMerkleRoot prims merkleEntries
  ensure (.invalidInput "catalog directory root differs") (root = expectedRoot)

/-- The node loop of the validator; it carries the entries counted and the identities indexed so far. -/
def validateDirectories (prims : Primitives) :
    Nat → List Text → List CatalogCheckpointDirectory → Except Error Unit
  | _, _, [] => .ok ()
  | entryCount, indexed, directory :: directories => do
      let _ ← decodeHex 16 directory.directoryId "catalog directory identity"
      validateParent directory
      let expectedRoot ← decodeHex 32 directory.dataRoot "catalog directory root"
      ensure (.invalidInput "catalog directory identity is duplicated") (directory.directoryId ∉ indexed)
      ensure (.invalidInput "catalog entry bound exceeded")
        (entryCount + directory.entries.length ≤ maximumCatalogEntries)
      validateEntries prims directory expectedRoot
      validateDirectories prims (entryCount + directory.entries.length) (directory.directoryId :: indexed) directories

/-- The node listed under an identity. -/
def findDirectory (directories : List CatalogCheckpointDirectory) (directoryId : Text) :
    Option CatalogCheckpointDirectory :=
  directories.find? fun directory => directory.directoryId == directoryId

/-- The child identities linked by a node, each checked against the child's own parent, name and root. -/
def linkedChildren (directories : List CatalogCheckpointDirectory) (directory : CatalogCheckpointDirectory) :
    List CatalogCheckpointEntry → Except Error (List Text)
  | [] => .ok []
  | entry :: entries =>
      match entry.kind with
      | .file => linkedChildren directories directory entries
      | .directory => do
          let childId ← entry.childDirectoryId.orFail (.invalidInput "catalog child identity is missing")
          let child ← (findDirectory directories childId).orFail
            (.invalidInput "catalog child directory is missing")
          ensure (.invalidInput "catalog child link differs")
            (child.parentDirectoryId = some directory.directoryId && child.name = entry.name &&
              child.dataRoot = entry.dataRoot)
          let children ← linkedChildren directories directory entries
          .ok (childId :: children)

/-- One iteration of the walk: the last child pushed is the first one popped. -/
def expandDirectory (directories : List CatalogCheckpointDirectory) (directoryId : Text) :
    Except Error (CatalogCheckpointDirectory × List Text) := do
  let directory ← (findDirectory directories directoryId).orFail (.invalidInput "catalog child directory is missing")
  let children ← linkedChildren directories directory directory.entries
  .ok (directory, children.reverse)

/-- The walk over directory links from the given identities. -/
def walkDirectories (directories : List CatalogCheckpointDirectory) (pending : List Text) :
    Except Error (List (Text × CatalogCheckpointDirectory)) :=
  Worklist.walk (directories.map CatalogCheckpointDirectory.directoryId) id
    (.invalidInput "catalog directory graph is not a tree") (.invalidInput "catalog child directory is missing")
    (expandDirectory directories) pending []

/-- Verify every identity, bound, directory Merkle root, and tree edge in a complete checkpoint. -/
def validateCatalogCheckpoint (prims : Primitives) (checkpoint : CatalogCheckpoint) : Except Error Unit := do
  ensure (.invalidInput "catalog checkpoint identity is invalid")
    (checkpoint.schema == catalogCheckpointSchema && checkpoint.revisionId ≠ 0 && checkpoint.createdAt ≠ 0 &&
      checkpoint.parentRevisionId.all fun parent => parent < checkpoint.revisionId)
  let _ ← decodeHex 16 checkpoint.filesystemId "catalog filesystem identity"
  let _ ← decodeHex 16 checkpoint.rootDirectoryId "catalog root directory identity"
  let _ ← decodeHex 32 checkpoint.rootDataRoot "catalog root data root"
  ensure (.invalidInput "catalog directory bound exceeded")
    (!checkpoint.directories.isEmpty && checkpoint.directories.length ≤ maximumCatalogDirectories)
  ensure (.invalidInput "catalog directories are not canonically ordered")
    (KeyOrder.windowsAscend CatalogCheckpointDirectory.directoryId checkpoint.directories)
  validateDirectories prims 0 [] checkpoint.directories
  let root ← (findDirectory checkpoint.directories checkpoint.rootDirectoryId).orFail
    (.invalidInput "catalog root directory is missing")
  ensure (.invalidInput "catalog root identity differs")
    (root.parentDirectoryId.isNone && root.name.isEmpty && root.dataRoot = checkpoint.rootDataRoot)
  let visited ← walkDirectories checkpoint.directories [checkpoint.rootDirectoryId]
  ensure (.invalidInput "catalog contains an unreachable directory")
    (visited.length = checkpoint.directories.length)

end Skydriver
