import Skydriver.Catalog.Checkpoint

/-!
# Catalog deltas

A delta carries the nodes of a target checkpoint whose content address, identity and data root together, is absent
from a base checkpoint.  Applying it walks the target from its root over the delta's nodes and the base's, and derives
parents and names from the links instead of trusting the reused nodes.

The JSON encoding of a checkpoint body comes from outside the repository and is a field of `CatalogPrimitives`.
-/

namespace Skydriver

open Checked

def catalogDeltaSchema : Text := utf8 "skydriver.vfs.catalog-delta.v1"

/-- The primitives of the catalog layer; the encoder may refuse a value. -/
structure CatalogPrimitives extends Primitives where
  /-- Canonical JSON body of a checkpoint. -/
  encodeCheckpoint : CatalogCheckpoint → Option (List UInt8)

/-- One optional hash-linked transition between complete catalog checkpoints. -/
structure CatalogDelta where
  schema : Text
  filesystemId : Text
  baseRevisionId : UInt64
  baseRootDirectoryId : Text
  baseRootDataRoot : Text
  baseCheckpointSha256 : Text
  revisionId : UInt64
  parentRevisionId : Option UInt64
  rootDirectoryId : Text
  rootDataRoot : Text
  createdAt : UInt64
  checkpointSha256 : Text
  directories : List CatalogCheckpointDirectory
deriving DecidableEq

/-- The standalone checks of one directory node; returns its number of entries. -/
def validateCatalogDirectory (prims : Primitives) (directory : CatalogCheckpointDirectory) : Except Error Nat := do
  let _ ← decodeHex 16 directory.directoryId "catalog directory identity"
  validateParent directory
  let expectedRoot ← decodeHex 32 directory.dataRoot "catalog directory root"
  validateEntries prims directory expectedRoot
  .ok directory.entries.length

/-- The node loop of the delta validator, carrying the entries counted so far. -/
def validateDeltaDirectories (prims : Primitives) : Nat → List CatalogCheckpointDirectory → Except Error Unit
  | _, [] => .ok ()
  | entryCount, directory :: directories => do
      let entries ← validateCatalogDirectory prims directory
      ensure (.invalidInput "catalog delta entry bound exceeded") (entryCount + entries ≤ maximumCatalogEntries)
      validateDeltaDirectories prims (entryCount + entries) directories

/-- Validate the bounded standalone portion of a delta. -/
def validateCatalogDelta (prims : Primitives) (delta : CatalogDelta) : Except Error Unit := do
  ensure (.invalidInput "catalog delta identity is invalid")
    (delta.schema == catalogDeltaSchema && delta.baseRevisionId ≠ 0 && delta.baseRevisionId < delta.revisionId &&
      delta.createdAt ≠ 0 && (delta.parentRevisionId.all fun parent => parent < delta.revisionId) &&
      delta.baseRootDirectoryId == delta.rootDirectoryId && !delta.directories.isEmpty &&
      delta.directories.length ≤ maximumCatalogDirectories)
  let _ ← decodeHex 16 delta.filesystemId "catalog delta filesystem identity"
  let _ ← decodeHex 16 delta.rootDirectoryId "catalog delta root directory identity"
  let _ ← decodeHex 32 delta.baseRootDataRoot "catalog delta base root data root"
  let _ ← decodeHex 32 delta.rootDataRoot "catalog delta root data root"
  let _ ← decodeHex 32 delta.baseCheckpointSha256 "catalog delta base checkpoint SHA-256 is invalid"
  let _ ← decodeHex 32 delta.checkpointSha256 "catalog delta checkpoint SHA-256 is invalid"
  ensure (.invalidInput "catalog delta directories are not canonically ordered")
    (KeyOrder.windowsAscend CatalogCheckpointDirectory.directoryId delta.directories)
  validateDeltaDirectories prims 0 delta.directories

/-- Compare a checkpoint's body with an expected digest. -/
def validateCheckpointBodySha256 (prims : CatalogPrimitives) (checkpoint : CatalogCheckpoint) (expected : Text) :
    Except Error Unit := do
  let _ ← decodeHex 32 expected "catalog checkpoint SHA-256 is invalid"
  let encoded ← (prims.encodeCheckpoint checkpoint).orFail (.invalidInput "catalog checkpoint encoding failed")
  ensure (.invalidInput "catalog checkpoint SHA-256 differs") (hexEncode (prims.sha256 encoded).val == expected)

/-- The delta that carries the target nodes whose content address the base does not have. -/
def deltaBetween (base : CatalogCheckpoint) (baseCheckpointSha256 : Text) (target : CatalogCheckpoint)
    (checkpointSha256 : Text) : CatalogDelta where
  schema := catalogDeltaSchema
  filesystemId := target.filesystemId
  baseRevisionId := base.revisionId
  baseRootDirectoryId := base.rootDirectoryId
  baseRootDataRoot := base.rootDataRoot
  baseCheckpointSha256
  revisionId := target.revisionId
  parentRevisionId := target.parentRevisionId
  rootDirectoryId := target.rootDirectoryId
  rootDataRoot := target.rootDataRoot
  createdAt := target.createdAt
  checkpointSha256
  directories := target.directories.filter fun directory =>
    (directory.directoryId, directory.dataRoot) ∉
      base.directories.map fun directory => (directory.directoryId, directory.dataRoot)

/-- Build the minimal content-addressed delta between two complete verified checkpoint views. -/
def buildCatalogDelta (prims : CatalogPrimitives) (base : CatalogCheckpoint) (baseCheckpointSha256 : Text)
    (target : CatalogCheckpoint) (checkpointSha256 : Text) : Except Error CatalogDelta := do
  validateCatalogCheckpoint prims.toPrimitives base
  validateCatalogCheckpoint prims.toPrimitives target
  validateCheckpointBodySha256 prims base baseCheckpointSha256
  validateCheckpointBodySha256 prims target checkpointSha256
  ensure (.invalidInput "catalog delta view identity differs")
    (base.filesystemId == target.filesystemId && base.rootDirectoryId == target.rootDirectoryId &&
      base.revisionId < target.revisionId)
  let delta := deltaBetween base baseCheckpointSha256 target checkpointSha256
  validateCatalogDelta prims.toPrimitives delta
  .ok delta

/-- A node still to be visited: its identity and the root, parent and name that its link demands. -/
structure PendingNode where
  directoryId : Text
  dataRoot : Text
  parentDirectoryId : Option Text
  name : Text
deriving DecidableEq

/-- The node available under an identity: nodes of the delta replace those of the base. -/
def findAvailable (base : CatalogCheckpoint) (delta : CatalogDelta) (directoryId : Text) :
    Option CatalogCheckpointDirectory :=
  (findDirectory delta.directories directoryId).or (findDirectory base.directories directoryId)

/-- The available node under the parent and name that the target demands. -/
def PendingNode.restore (node : PendingNode) (source : CatalogCheckpointDirectory) : CatalogCheckpointDirectory :=
  { source with parentDirectoryId := node.parentDirectoryId, name := node.name }

def pendingChildren (directory : CatalogCheckpointDirectory) :
    List CatalogCheckpointEntry → Except Error (List PendingNode)
  | [] => .ok []
  | entry :: entries =>
      match entry.kind with
      | .file => pendingChildren directory entries
      | .directory => do
          let childId ← entry.childDirectoryId.orFail
            (.invalidInput "catalog delta target child identity is missing")
          let children ← pendingChildren directory entries
          .ok ({ directoryId := childId, dataRoot := entry.dataRoot,
                 parentDirectoryId := some directory.directoryId, name := entry.name } :: children)

/-- One iteration of the target walk.  Entries are pushed in reverse, so the first child is popped first. -/
def expandPending (base : CatalogCheckpoint) (delta : CatalogDelta) (node : PendingNode) :
    Except Error (CatalogCheckpointDirectory × List PendingNode) := do
  let source ← (findAvailable base delta node.directoryId).orFail
    (.invalidInput "catalog delta target node is missing")
  ensure (.invalidInput "catalog delta target node root differs") (source.dataRoot == node.dataRoot)
  let directory := node.restore source
  let children ← pendingChildren directory directory.entries
  .ok (directory, children)

/-- The node from which the target walk starts. -/
def rootPending (delta : CatalogDelta) : PendingNode where
  directoryId := delta.rootDirectoryId
  dataRoot := delta.rootDataRoot
  parentDirectoryId := none
  name := []

/-- The walk over the target: delta nodes where they exist, base nodes elsewhere. -/
def walkTarget (base : CatalogCheckpoint) (delta : CatalogDelta) :
    Except Error (List (PendingNode × CatalogCheckpointDirectory)) :=
  Worklist.walk ((base.directories ++ delta.directories).map CatalogCheckpointDirectory.directoryId)
    PendingNode.directoryId (.invalidInput "catalog delta target is not a tree")
    (.invalidInput "catalog delta target node is missing") (expandPending base delta) [rootPending delta] []

/-- The checkpoint with the delta's target header over the collected nodes. -/
def assembleCheckpoint (delta : CatalogDelta) (directories : List CatalogCheckpointDirectory) : CatalogCheckpoint where
  schema := catalogCheckpointSchema
  filesystemId := delta.filesystemId
  revisionId := delta.revisionId
  parentRevisionId := delta.parentRevisionId
  rootDirectoryId := delta.rootDirectoryId
  rootDataRoot := delta.rootDataRoot
  createdAt := delta.createdAt
  directories := KeyOrder.sortByKey CatalogCheckpointDirectory.directoryId directories

/-- Apply one delta to a complete authenticated base and return the revalidated target checkpoint. -/
def applyCatalogDelta (prims : CatalogPrimitives) (base : CatalogCheckpoint) (baseCheckpointSha256 : Text)
    (delta : CatalogDelta) : Except Error CatalogCheckpoint := do
  validateCatalogCheckpoint prims.toPrimitives base
  validateCatalogDelta prims.toPrimitives delta
  let _ ← decodeHex 32 baseCheckpointSha256 "catalog delta base checkpoint SHA-256 is invalid"
  ensure (.invalidInput "catalog delta base identity differs")
    (baseCheckpointSha256 == delta.baseCheckpointSha256 && base.filesystemId == delta.filesystemId &&
      base.revisionId == delta.baseRevisionId && base.rootDirectoryId == delta.baseRootDirectoryId &&
      base.rootDataRoot == delta.baseRootDataRoot)
  let visited ← walkTarget base delta
  ensure (.invalidInput "catalog delta contains an unreachable changed node")
    (delta.directories.all fun directory =>
      (visited.map fun visit => visit.1.directoryId).contains directory.directoryId)
  let checkpoint := assembleCheckpoint delta (visited.map Prod.snd).reverse
  validateCatalogCheckpoint prims.toPrimitives checkpoint
  validateCheckpointBodySha256 prims checkpoint delta.checkpointSha256
  .ok checkpoint

end Skydriver
