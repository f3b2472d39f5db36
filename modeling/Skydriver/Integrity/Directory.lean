import Skydriver.Lib.Checked
import Skydriver.Lib.Bytes
import Skydriver.Lib.KeyOrder

/-!
# Canonical directory identities

The Merkle root of one directory, as the portable core computes it: entries are validated, ordered by the UTF-8 bytes
of their names, hashed into leaves, and merged by an accumulator that retains only completed power-of-two subtrees.
SHA-256 and Unicode normalization come from outside the repository and are fields of `Primitives`.
-/

namespace Skydriver

open Checked

/-- Text is represented by its UTF-8 bytes, the form in which names are compared, measured and hashed. -/
abbrev Text := List UInt8

/-- The bytes of a text constant. -/
def utf8 (text : String) : Text := text.toUTF8.data.toList

/-- Stable 128-bit identity of a filesystem, directory, file or version. -/
abbrev Identity := Bytes 16

abbrev Digest := Bytes 32

/-- The third-party primitives under the integrity layer. -/
structure Primitives where
  /-- SHA-256. -/
  sha256 : List UInt8 → Digest
  /-- Whether a text equals its canonical composition. -/
  isNfc : Text → Bool

/-- Portable SDK validation failure. -/
inductive Error where
  | invalidInput (message : String)
  | crypto
deriving DecidableEq, Repr

def directoryFileEntryDomain : List UInt8 := utf8 "skydriver.vfs.directory.file-entry.v1" ++ [0]
def directoryChildEntryDomain : List UInt8 := utf8 "skydriver.vfs.directory.child-entry.v1" ++ [0]
def directoryEmptyDomain : List UInt8 := utf8 "skydriver.vfs.directory.empty.v1" ++ [0]
def directoryNodeDomain : List UInt8 := utf8 "skydriver.vfs.directory.node.v1" ++ [0]
def directoryRootDomain : List UInt8 := utf8 "skydriver.vfs.directory.root.v1" ++ [0]
def maximumDirectoryEntries : Nat := 1000000
def maximumNameBytes : Nat := 255

/-- One immutable entry committed by a canonical directory Merkle root. -/
inductive DirectoryMerkleEntry where
  | file (name : Text) (stableId versionId : Identity) (sizeBytes : UInt64) (dataRoot metadataRoot : Digest)
  | directory (name : Text) (stableId : Identity) (dataRoot : Digest)
deriving DecidableEq

def entryName : DirectoryMerkleEntry → Text
  | .file name _ _ _ _ _ => name
  | .directory name _ _ => name

/-- Entry names are nonempty, bounded, normalized, and never a path or a path component with a meaning. -/
def isCanonicalName (prims : Primitives) (name : Text) : Bool :=
  !(name.isEmpty || name.length > maximumNameBytes || name == utf8 "." || name == utf8 ".." || name.contains 47 ||
    name.contains 0 || !prims.isNfc name)

def validateDirectoryEntry (prims : Primitives) (entry : DirectoryMerkleEntry) : Except Error Unit := do
  ensure (.invalidInput "directory entry name is not canonical") (isCanonicalName prims (entryName entry))
  match entry with
  | .file _ stableId versionId _ dataRoot metadataRoot =>
      ensure (.invalidInput "file directory entry identity is zero")
        (stableId ≠ .zero 16 && versionId ≠ .zero 16 && dataRoot ≠ .zero 32 && metadataRoot ≠ .zero 32)
  | .directory _ stableId dataRoot =>
      ensure (.invalidInput "child directory entry identity is zero") (stableId ≠ .zero 16 && dataRoot ≠ .zero 32)

/-- The bytes hashed into the leaf of one entry. -/
def entryPreimage : DirectoryMerkleEntry → List UInt8
  | .file name stableId versionId sizeBytes dataRoot metadataRoot =>
      directoryFileEntryDomain ++ (bigEndian 4 name.length ++ (name ++ (stableId.val ++ (versionId.val ++
        (bigEndian 8 sizeBytes.toNat ++ (dataRoot.val ++ metadataRoot.val))))))
  | .directory name stableId dataRoot =>
      directoryChildEntryDomain ++ (bigEndian 4 name.length ++ (name ++ (stableId.val ++ dataRoot.val)))

def hashDirectoryEntry (prims : Primitives) (entry : DirectoryMerkleEntry) : Except Error Digest := do
  ensure (.invalidInput "directory entry name exceeds u32") ((entryName entry).length < 2 ^ 32)
  .ok (prims.sha256 (entryPreimage entry))

/-- A completed subtree: the leaves it covers and their digest. -/
structure FileSubtree where
  first : Nat
  leaves : Nat
  digest : Digest
deriving DecidableEq

/-- Addition of unsigned 64-bit integers, absent on overflow. -/
def checkedAdd (left right : Nat) : Option Nat := if left + right < 2 ^ 64 then some (left + right) else none

/-- The bytes hashed into the node above two subtrees. -/
def nodePreimage (domain : List UInt8) (left right : FileSubtree) (leaves : Nat) : List UInt8 :=
  domain ++ (bigEndian 8 left.first ++ (bigEndian 8 leaves ++ (left.digest.val ++ right.digest.val)))

def mergeSubtrees (prims : Primitives) (domain : List UInt8) (left right : FileSubtree) :
    Except Error FileSubtree := do
  ensure (.invalidInput "file Merkle subtrees are not adjacent")
    (checkedAdd left.first left.leaves == some right.first)
  let leaves ← (checkedAdd left.leaves right.leaves).orFail (.invalidInput "verification block count overflow")
  .ok { first := left.first, leaves, digest := prims.sha256 (nodePreimage domain left right leaves) }

/-- An already name-ordered directory under authentication; `subtrees` holds the most recent subtree first. -/
structure DirectoryMerkleAccumulator where
  entryCount : Nat
  previousName : Option Text
  subtrees : List FileSubtree

namespace DirectoryMerkleAccumulator

def new : DirectoryMerkleAccumulator := { entryCount := 0, previousName := none, subtrees := [] }

/-- The merge loop of `push`: combine equally sized neighbours, then retain the node. -/
def pushSubtree (prims : Primitives) : List FileSubtree → FileSubtree → Except Error (List FileSubtree)
  | [], node => .ok [node]
  | left :: rest, node =>
      if left.leaves = node.leaves then do
        let merged ← mergeSubtrees prims directoryNodeDomain left node
        pushSubtree prims rest merged
      else .ok (node :: left :: rest)

def push (prims : Primitives) (accumulator : DirectoryMerkleAccumulator) (entry : DirectoryMerkleEntry) :
    Except Error DirectoryMerkleAccumulator := do
  validateDirectoryEntry prims entry
  ensure (.invalidInput "directory entries are not strictly ordered")
    (accumulator.previousName.all fun previous => previous < entryName entry)
  ensure (.invalidInput "directory entry limit exceeded") (accumulator.entryCount < maximumDirectoryEntries)
  let digest ← hashDirectoryEntry prims entry
  let subtrees ← pushSubtree prims accumulator.subtrees { first := accumulator.entryCount, leaves := 1, digest }
  .ok { entryCount := accumulator.entryCount + 1, previousName := some (entryName entry), subtrees }

/-- The merge loop of `finish`: combine the remaining subtrees from the right. -/
def foldSubtrees (prims : Primitives) : FileSubtree → List FileSubtree → Except Error FileSubtree
  | right, [] => .ok right
  | right, left :: rest => do
      let merged ← mergeSubtrees prims directoryNodeDomain left right
      foldSubtrees prims merged rest

/-- The bytes hashed into the root of a directory. -/
def rootPreimage (entryCount : Nat) (tree : Digest) : List UInt8 :=
  directoryRootDomain ++ (bigEndian 8 entryCount ++ tree.val)

/-- The digest over all subtrees, with its own domain for the empty directory. -/
def treeDigest (prims : Primitives) : List FileSubtree → Except Error Digest
  | [] => .ok (prims.sha256 directoryEmptyDomain)
  | right :: rest => do
      let subtree ← foldSubtrees prims right rest
      .ok subtree.digest

def finish (prims : Primitives) (accumulator : DirectoryMerkleAccumulator) : Except Error Digest := do
  let tree ← treeDigest prims accumulator.subtrees
  .ok (prims.sha256 (rootPreimage accumulator.entryCount tree))

/-- Push a list of entries in order. -/
def pushAll (prims : Primitives) :
    DirectoryMerkleAccumulator → List DirectoryMerkleEntry → Except Error DirectoryMerkleAccumulator
  | accumulator, [] => .ok accumulator
  | accumulator, entry :: entries => do
      let accumulator ← push prims accumulator entry
      pushAll prims accumulator entries

end DirectoryMerkleAccumulator

def canonicalEntries (entries : List DirectoryMerkleEntry) : List DirectoryMerkleEntry :=
  KeyOrder.sortByKey entryName entries

def directoryMerkleRoot (prims : Primitives) (entries : List DirectoryMerkleEntry) : Except Error Digest := do
  ensure (.invalidInput "directory entry limit exceeded") (entries.length ≤ maximumDirectoryEntries)
  let accumulator ← DirectoryMerkleAccumulator.pushAll prims .new (canonicalEntries entries)
  accumulator.finish prims

/-- A polynomial digest that does not collide on short examples. -/
def polynomialDigest (bytes : List UInt8) : Digest :=
  .ofNat 32 (bytes.foldl (fun value byte => (value * 257 + byte.toNat + 1) % 2 ^ 256) 0)

end Skydriver
