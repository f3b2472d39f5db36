import Skydriver.Integrity.BlockManifest
import Skydriver.Lib.Utf8
import Skydriver.Lib.Words

/-!
# Content identities on the data-plane side

The service that moves file contents computes the same identities with code of its own: trees are built recursively over
slices of digests, and every block of a file carries its ordinal, offset and length.  A hasher is the list of the bytes
written to it so far.
-/

namespace Skydriver.Merkle

open Checked

inductive MerkleError where
  | invalidFile (message : String)
  | invalidDirectory (message : String)
  | integrity (message : String)
  /-- An error wrapped with the place it comes from. -/
  | within (place : String) (cause : MerkleError)
deriving DecidableEq, Repr

/-! ### Digests -/

def newDomainHasher (domain : String) : List UInt8 := utf8 domain ++ [0]
def writeUint32 (hasher : List UInt8) (value : Nat) : List UInt8 := hasher ++ bigEndian 4 value
def writeUint64 (hasher : List UInt8) (value : Nat) : List UInt8 := hasher ++ bigEndian 8 value
def writeHash (hasher payload : List UInt8) : List UInt8 := hasher ++ payload
def finishDigest (prims : Primitives) (hasher : List UInt8) : Digest := prims.sha256 hasher

/-- Whether a required digest or identifier was omitted. -/
def isZero {width : Nat} (bytes : Bytes width) : Bool := bytes == .zero width

def hashEmpty (prims : Primitives) (domain : String) : Digest := finishDigest prims (newDomainHasher domain)

def hashBinaryNode (prims : Primitives) (domain : String) (firstLeaf leafCount : Nat) (left right : Digest) : Digest :=
  let hasher := newDomainHasher domain
  let hasher := writeUint64 hasher firstLeaf
  let hasher := writeUint64 hasher leafCount
  let hasher := writeHash hasher left.val
  let hasher := writeHash hasher right.val
  finishDigest prims hasher

/-- The loop of `largestPowerOfTwoPrefix`. -/
def growPrefix (count taken : Nat) : Nat :=
  if h : 0 < taken ∧ taken ≤ (count - 1) / 2 then growPrefix count (taken * 2) else taken
termination_by (count - 1) / 2 + 1 - taken
decreasing_by omega

def largestPowerOfTwoPrefix (count : Nat) : Nat := growPrefix count 1

theorem growPrefix_eq (count taken : Nat) : growPrefix count taken = FileMerkle.doubleCount ((count - 1) / 2) taken := by
  fun_induction growPrefix count taken with
  | case1 taken hmore ih => rw [FileMerkle.doubleCount, dif_pos hmore, ih]
  | case2 taken hlast => rw [FileMerkle.doubleCount, dif_neg hlast]

theorem largestPowerOfTwoPrefix_eq (count : Nat) : largestPowerOfTwoPrefix count = FileMerkle.leftCount count :=
  growPrefix_eq count 1

theorem largestPowerOfTwoPrefix_bounds {count : Nat} (h : 2 ≤ count) :
    0 < largestPowerOfTwoPrefix count ∧ largestPowerOfTwoPrefix count < count := by
  obtain ⟨level, heq, hlower, _⟩ := FileMerkle.leftCount_bounds h
  have hpos := Nat.two_pow_pos level
  rw [largestPowerOfTwoPrefix_eq, heq]
  exact ⟨hpos, hlower⟩

/-- The callers never pass an empty slice, on which the slicing would fail. -/
def buildCanonicalTree (prims : Primitives) (domain : String) (leaves : List Digest) (firstLeaf : Nat) : Digest :=
  match leaves with
  | [] => finishDigest prims []
  | [leaf] => leaf
  | one :: two :: rest =>
      let all := one :: two :: rest
      let leftCount := largestPowerOfTwoPrefix all.length
      let left := buildCanonicalTree prims domain (all.take leftCount) firstLeaf
      let right := buildCanonicalTree prims domain (all.drop leftCount) (firstLeaf + leftCount)
      hashBinaryNode prims domain firstLeaf all.length left right
termination_by leaves.length
decreasing_by
  · have hbounds := largestPowerOfTwoPrefix_bounds (show 2 ≤ (one :: two :: rest).length by simp)
    simp only [List.length_take] at *
    omega
  · have hbounds := largestPowerOfTwoPrefix_bounds (show 2 ≤ (one :: two :: rest).length by simp)
    simp only [List.length_drop] at *
    omega

/-! ### Files -/

def fileLeafDomain : String := "skydriver.vfs.file.leaf.v1"
def fileEmptyDomain : String := "skydriver.vfs.file.empty.v1"
def fileNodeDomain : String := "skydriver.vfs.file.node.v1"
def fileRootDomain : String := "skydriver.vfs.file.root.v1"
def maximumFileBlocks : UInt64 := 1000000
/-- `math.MaxInt64`. -/
def maxInt64 : UInt64 := 9223372036854775807

/-- One exact plaintext verification range and its leaf digest. -/
structure FileBlock where
  index : UInt64
  offset : UInt64
  sizeBytes : UInt64
  digest : Digest
deriving DecidableEq

structure FileTree where
  sizeBytes : UInt64
  blockBytes : UInt64
  blocks : List FileBlock
  treeDigest : Digest
  root : Digest
deriving DecidableEq

def expectedBlockCount (sizeBytes blockBytes : UInt64) : UInt64 :=
  if sizeBytes = 0 then 0 else 1 + (sizeBytes - 1) / blockBytes

def validateFileLayout (sizeBytes blockBytes : UInt64) : Except MerkleError Unit := do
  ensure (.invalidFile "verification block size must be positive") (blockBytes ≠ 0)
  ensure (.invalidFile "file or block exceeds streaming limit") (sizeBytes ≤ maxInt64 && blockBytes ≤ maxInt64)
  ensure (.invalidFile "file exceeds maximum verification block count")
    (expectedBlockCount sizeBytes blockBytes ≤ maximumFileBlocks)

/-- The check of one block by `RootFromFileBlocks`. -/
def isCanonicalBlock (sizeBytes blockBytes : UInt64) (index : Nat) (block : FileBlock) : Bool :=
  let expectedOffset := UInt64.ofNat index * blockBytes
  let expectedLength := min blockBytes (sizeBytes - expectedOffset)
  block.index == UInt64.ofNat index && block.offset == expectedOffset && block.sizeBytes == expectedLength &&
    !isZero block.digest

/-- The loop over the blocks, from an index on. -/
def blockLeaves (sizeBytes blockBytes : UInt64) : Nat → List FileBlock → Except MerkleError (List Digest)
  | _, [] => .ok []
  | index, block :: blocks => do
      ensure (.invalidFile s!"block {index} is not canonical") (isCanonicalBlock sizeBytes blockBytes index block)
      let leaves ← blockLeaves sizeBytes blockBytes (index + 1) blocks
      .ok (block.digest :: leaves)

def rootFromFileBlocks (prims : Primitives) (sizeBytes blockBytes : UInt64) (blocks : List FileBlock) :
    Except MerkleError FileTree := do
  validateFileLayout sizeBytes blockBytes
  ensure (.invalidFile "block count differs from canonical layout")
    (blocks.length == (expectedBlockCount sizeBytes blockBytes).toNat)
  let leaves ← blockLeaves sizeBytes blockBytes 0 blocks
  let treeDigest :=
    if leaves.isEmpty then hashEmpty prims fileEmptyDomain else buildCanonicalTree prims fileNodeDomain leaves 0
  let rootHasher := newDomainHasher fileRootDomain
  let rootHasher := writeUint64 rootHasher blockBytes.toNat
  let rootHasher := writeUint64 rootHasher sizeBytes.toNat
  let rootHasher := writeUint64 rootHasher blocks.length
  let rootHasher := writeHash rootHasher treeDigest.val
  .ok { sizeBytes, blockBytes, blocks, treeDigest, root := finishDigest prims rootHasher }

/-- Copy one block from the reader into a hasher; returns what the reader still holds. -/
def hashReaderBlock (prims : Primitives) (reader : List UInt8) (index length : UInt64) :
    Except MerkleError (Digest × List UInt8) := do
  let hasher := newDomainHasher fileLeafDomain
  let hasher := writeUint64 hasher index.toNat
  let hasher := writeUint64 hasher length.toNat
  -- `io.CopyN` stops early where the reader ends
  let payload := reader.take length.toNat
  ensure (.integrity s!"block {index} ended after {payload.length} of {length} bytes") (payload.length == length.toNat)
  .ok (finishDigest prims (writeHash hasher payload), reader.drop length.toNat)

/-- The loop of `BuildFile`, from an offset on; the layout has been validated, so the block size is positive. -/
def readBlocks (prims : Primitives) (sizeBytes blockBytes : UInt64) (offset index : UInt64) (reader : List UInt8) :
    Except MerkleError (List FileBlock × List UInt8) :=
  if _hmore : offset < sizeBytes ∧ 0 < blockBytes then do
    let length := min blockBytes (sizeBytes - offset)
    let (digest, reader) ← hashReaderBlock prims reader index length
    let (blocks, reader) ← readBlocks prims sizeBytes blockBytes (offset + length) (index + 1) reader
    .ok ({ index, offset, sizeBytes := length, digest } :: blocks, reader)
  else .ok ([], reader)
termination_by sizeBytes.toNat - offset.toNat
decreasing_by
  obtain ⟨hinside, hpositive⟩ := _hmore
  have hnext := (Words.blockLength_spec blockBytes hinside).2
  rw [UInt64.lt_iff_toNat_lt] at hinside hpositive
  rw [UInt64.toNat_zero] at hpositive
  omega

def requireReaderEOF (reader : List UInt8) : Except MerkleError Unit :=
  ensure (.integrity "file contains bytes beyond declared length") reader.isEmpty

/-- `BuildFile` on a reader that delivers `payload` without an error of its own and is not cancelled. -/
def buildFile (prims : Primitives) (payload : List UInt8) (sizeBytes blockBytes : UInt64) :
    Except MerkleError FileTree := do
  validateFileLayout sizeBytes blockBytes
  let (blocks, reader) ← readBlocks prims sizeBytes blockBytes 0 0 payload
  requireReaderEOF reader
  rootFromFileBlocks prims sizeBytes blockBytes blocks

/-! ### Block manifests -/

def blockManifestDomain : String := "skydriver.vfs.block-manifest.v1"

def blockManifestSize (blockCount : UInt64) : Except MerkleError Nat := do
  ensure (.invalidFile "block manifest count exceeds limit") (blockCount ≤ maximumFileBlocks)
  let fixedBytes := (utf8 blockManifestDomain).length + 1 + 3 * 8 + 32
  let payloadBytes := blockCount * 32
  let overflow := blockCount ≠ 0 && payloadBytes / blockCount ≠ 32
  let totalBytes := UInt64.ofNat fixedBytes + payloadBytes
  ensure (.invalidFile "block manifest length overflows") (!overflow && totalBytes ≤ maxInt64)
  .ok totalBytes.toNat

/-- Encode one already validated tree. -/
def marshalFileBlockManifest (prims : Primitives) (tree : FileTree) : Except MerkleError (List UInt8) := do
  let validated ← (rootFromFileBlocks prims tree.sizeBytes tree.blockBytes tree.blocks).mapError
    (.within "marshal VFS block manifest")
  ensure (.invalidFile "file tree identity differs")
    (validated.root == tree.root && validated.treeDigest == tree.treeDigest)
  let _manifestBytes ← blockManifestSize (UInt64.ofNat tree.blocks.length)
  let encoded := utf8 blockManifestDomain ++ [0]
  let encoded := writeUint64 encoded tree.sizeBytes.toNat
  let encoded := writeUint64 encoded tree.blockBytes.toNat
  let encoded := writeUint64 encoded tree.blocks.length
  let encoded := tree.blocks.foldl (fun encoded block => encoded ++ block.digest.val) encoded
  .ok (encoded ++ tree.root.val)

/-- `binary.BigEndian.Uint64` of a slice of eight bytes. -/
def uint64At (encoded : List UInt8) (offset : Nat) : UInt64 :=
  UInt64.ofNat (bigEndianValue ((encoded.drop offset).take 8))

/-- Copy a digest out of a slice, which the length of the input has been checked to cover. -/
def digestAt (encoded : List UInt8) (offset : Nat) : Digest :=
  if h : ((encoded.drop offset).take 32).length = 32 then ⟨(encoded.drop offset).take 32, h⟩ else .zero 32

/-- The loop over the digests, from an index and an offset on; it returns the offset behind the last digest. -/
def parseBlocks (encoded : List UInt8) (sizeBytes blockBytes : UInt64) :
    Nat → Nat → Nat → Except MerkleError (List FileBlock × Nat)
  | 0, _, offset => .ok ([], offset)
  | remaining + 1, index, offset => do
      let digest := digestAt encoded offset
      ensure (.invalidFile s!"block {index} digest is zero") (!isZero digest)
      let blockOffset := UInt64.ofNat index * blockBytes
      let (blocks, offset) ← parseBlocks encoded sizeBytes blockBytes remaining (index + 1) (offset + 32)
      .ok ({ index := UInt64.ofNat index, offset := blockOffset,
             sizeBytes := min blockBytes (sizeBytes - blockOffset), digest } :: blocks, offset)

def parseFileBlockManifest (prims : Primitives) (encoded : List UInt8) : Except MerkleError FileTree := do
  let domain := utf8 blockManifestDomain ++ [0]
  let minimumBytes ← blockManifestSize 0
  ensure (.invalidFile "block manifest domain or length differs")
    (minimumBytes ≤ encoded.length && encoded.take domain.length == domain)
  let sizeBytes := uint64At encoded domain.length
  let blockBytes := uint64At encoded (domain.length + 8)
  let blockCount := uint64At encoded (domain.length + 16)
  let expectedBytes ← (blockManifestSize blockCount).mapError fun _ => .invalidFile "block manifest length differs"
  ensure (.invalidFile "block manifest length differs") (encoded.length == expectedBytes)
  ensure (.invalidFile "block manifest layout differs")
    (blockBytes ≠ 0 && blockCount == expectedBlockCount sizeBytes blockBytes)
  let (blocks, offset) ← parseBlocks encoded sizeBytes blockBytes blockCount.toNat 0 (domain.length + 24)
  let embeddedRoot := digestAt encoded offset
  let computed ← (rootFromFileBlocks prims sizeBytes blockBytes blocks).mapError (.within "parse VFS block manifest")
  ensure (.integrity "block manifest root differs") (embeddedRoot == computed.root)
  .ok computed

/-! ### Directories -/

def directoryFileEntryDomain : String := "skydriver.vfs.directory.file-entry.v1"
def directoryChildEntryDomain : String := "skydriver.vfs.directory.child-entry.v1"
def directoryEmptyDomain : String := "skydriver.vfs.directory.empty.v1"
def directoryNodeDomain : String := "skydriver.vfs.directory.node.v1"
def directoryRootDomain : String := "skydriver.vfs.directory.root.v1"
def maximumNameBytes : Nat := 255
def maximumDirectoryEntries : Nat := 1000000

/-- The discriminator of an entry is any byte; two of them have a meaning. -/
abbrev EntryKind := UInt8

def entryFile : EntryKind := 1
def entryDirectory : EntryKind := 2

/-- One record for both kinds of entries; a name is any byte string. -/
structure DirectoryEntry where
  name : Text
  kind : EntryKind
  stableId : Identity
  versionId : Identity
  sizeBytes : UInt64
  dataRoot : Digest
  metadataRoot : Digest
deriving DecidableEq

structure HashedDirectoryEntry where
  entry : DirectoryEntry
  digest : Digest
deriving DecidableEq

structure DirectoryTree where
  entries : List HashedDirectoryEntry
  treeDigest : Digest
  root : Digest
deriving DecidableEq

def validateEntryName (prims : Primitives) (name : Text) : Except MerkleError Unit := do
  ensure (.invalidDirectory "name is not a portable UTF-8 component")
    (!(name.isEmpty || name == utf8 "." || name == utf8 ".." || maximumNameBytes < name.length || !Utf8.valid name ||
      name.contains 47 || name.contains 0))
  ensure (.invalidDirectory "name must already use Unicode NFC") (prims.isNfc name)

def DirectoryEntry.validate (prims : Primitives) (entry : DirectoryEntry) : Except MerkleError Unit := do
  validateEntryName prims entry.name
  ensure (.invalidDirectory "stable ID and data root are required") (!isZero entry.stableId && !isZero entry.dataRoot)
  if entry.kind = entryFile then
    ensure (.invalidDirectory "file version and metadata roots are required")
      (!isZero entry.versionId && !isZero entry.metadataRoot)
  else if entry.kind = entryDirectory then
    ensure (.invalidDirectory "child directory contains file-only fields")
      (isZero entry.versionId && entry.sizeBytes == 0 && isZero entry.metadataRoot)
  else .error (.invalidDirectory s!"unknown entry kind {entry.kind}")

def hashDirectoryEntry (prims : Primitives) (entry : DirectoryEntry) : Digest :=
  let domain := if entry.kind = entryDirectory then directoryChildEntryDomain else directoryFileEntryDomain
  let hasher := newDomainHasher domain
  let hasher := writeUint32 hasher entry.name.length
  let hasher := writeHash hasher entry.name
  let hasher := writeHash hasher entry.stableId.val
  let hasher :=
    if entry.kind = entryFile then
      let hasher := writeHash hasher entry.versionId.val
      let hasher := writeUint64 hasher entry.sizeBytes.toNat
      let hasher := writeHash hasher entry.dataRoot.val
      writeHash hasher entry.metadataRoot.val
    else writeHash hasher entry.dataRoot.val
  finishDigest prims hasher

/-- `slices.SortFunc` by name.  The sort is not stable, so nothing more is known of it. -/
structure NameSort where
  sort : List DirectoryEntry → List DirectoryEntry
  perm : ∀ entries, (sort entries).Perm entries
  ordered : ∀ entries, (sort entries).Pairwise fun left right => left.name ≤ right.name

/-- The loop over the sorted entries, from an index on and behind a previous name. -/
def hashEntries (prims : Primitives) :
    Nat → Option Text → List DirectoryEntry → Except MerkleError (List HashedDirectoryEntry)
  | _, _, [] => .ok []
  | index, previous, entry :: entries => do
      (entry.validate prims).mapError (.within s!"entry {index}")
      ensure (.invalidDirectory "duplicate name") (previous ≠ some entry.name)
      let hashed ← hashEntries prims (index + 1) (some entry.name) entries
      .ok ({ entry, digest := hashDirectoryEntry prims entry } :: hashed)

def buildDirectory (prims : Primitives) (slices : NameSort) (entries : List DirectoryEntry) :
    Except MerkleError DirectoryTree := do
  ensure (.invalidDirectory "entry count exceeds limit") (entries.length ≤ maximumDirectoryEntries)
  let hashed ← hashEntries prims 0 none (slices.sort entries)
  let leaves := hashed.map HashedDirectoryEntry.digest
  let treeDigest :=
    if leaves.isEmpty then hashEmpty prims directoryEmptyDomain
    else buildCanonicalTree prims directoryNodeDomain leaves 0
  let rootHasher := newDomainHasher directoryRootDomain
  let rootHasher := writeUint64 rootHasher leaves.length
  let rootHasher := writeHash rootHasher treeDigest.val
  .ok { entries := hashed, treeDigest, root := finishDigest prims rootHasher }

end Skydriver.Merkle
