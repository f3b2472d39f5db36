import Skydriver.Catalog.RoundTrip
import Skydriver.Crypto.MetadataCache
import Skydriver.Crypto.Stream

/-!
# Files of the client catalog

The client keeps one sealed file for every directory node, addressed by identity and data root, and one for its head.
This module holds their values, the checks that a node and a head pass, and the way to a file and back: a checksummed
JSON envelope, sealed under the context of its address.

JSON and AES-GCM come from outside the repository.  `ClientPrimitives.Laws` says what the catalog relies on: an encoded
value decodes to itself, and AES-GCM decrypts what it encrypted.
-/

namespace Skydriver

open Checked

theorem IsIdentity.length_eq {width : Nat} {value : Text} (h : IsIdentity width value) : value.length = 2 * width := by
  obtain ⟨bytes, _, rfl⟩ := h
  rw [hexEncode_length, bytes.length_val]

/-- The strong entity tag of a checkpoint body. -/
def catalogCheckpointEtag (sha256 : Text) : Except Error Text := do
  ensure (.invalidInput "catalog checkpoint SHA-256 is invalid")
    (sha256.length == 64 && sha256.all fun byte => (hexValue byte).isSome)
  .ok (utf8 "\"sha256:" ++ sha256 ++ utf8 "\"")

/-- The text in front of a closing quotation mark. -/
def stripQuote (text : Text) : Option Text := if text.getLast? = some 34 then some text.dropLast else none

/-- The exact strong entity-tag syntax of checkpoint receipts. -/
def validateCatalogCheckpointEtag (etag : Text) : Except Error Unit := do
  let digest ← ((etag.dropPrefix? (utf8 "\"sha256:")).bind stripQuote).orFail
    (.invalidInput "catalog checkpoint entity tag is invalid")
  let canonical ← catalogCheckpointEtag digest
  ensure (.invalidInput "catalog checkpoint entity tag is invalid") (canonical == etag)

namespace Client

def nodeSchema : Text := utf8 "skydriver.vfs.catalog-node.v1"
def envelopeSchema : Text := utf8 "skydriver.vfs.catalog-node-envelope.v1"
def headSchema : Text := utf8 "skydriver.vfs.catalog-head.v1"
def headEnvelopeSchema : Text := utf8 "skydriver.vfs.catalog-head-envelope.v1"
def maximumNodeBytes : Nat := 512 * 1024 * 1024
def maximumHeadBytes : Nat := 64 * 1024
def maximumGcCursorBytes : Nat := 1

/-! ### Values -/

inductive EntryKind where
  | file
  | directory
deriving DecidableEq

structure CatalogEntry where
  name : Text
  kind : EntryKind
  fileId : Option Text
  versionId : Option Text
  childDirectoryId : Option Text
  sizeBytes : UInt64
  dataRoot : Text
  metadataRoot : Option Text
deriving DecidableEq

/-- One directory of the catalog at its content address. -/
structure CatalogNode where
  schema : Text
  directoryId : Text
  dataRoot : Text
  entries : List CatalogEntry
deriving DecidableEq

structure CatalogEnvelope where
  schema : Text
  sha256 : Text
  node : CatalogNode
deriving DecidableEq

/-- The checkpoint that the catalog holds in full. -/
structure CatalogHead where
  schema : Text
  filesystemId : Text
  revisionId : UInt64
  rootDirectoryId : Text
  rootDataRoot : Text
  checkpointSha256 : Text
  etag : Text
deriving DecidableEq

structure CatalogHeadEnvelope where
  schema : Text
  sha256 : Text
  head : CatalogHead
deriving DecidableEq

structure ClientPrimitives extends CatalogPrimitives, FramePrimitives where
  encodeNode : CatalogNode → Option (List UInt8)
  encodeEnvelope : CatalogEnvelope → Option (List UInt8)
  decodeEnvelope : List UInt8 → Option CatalogEnvelope
  encodeHead : CatalogHead → Option (List UInt8)
  encodeHeadEnvelope : CatalogHeadEnvelope → Option (List UInt8)
  decodeHeadEnvelope : List UInt8 → Option CatalogHeadEnvelope

/-- What the catalog relies on. -/
structure ClientPrimitives.Laws (prims : ClientPrimitives) : Prop where
  decrypts : prims.toFramePrimitives.Decrypts
  envelope : ∀ envelope bytes, prims.encodeEnvelope envelope = some bytes → prims.decodeEnvelope bytes = some envelope
  headEnvelope : ∀ envelope bytes, prims.encodeHeadEnvelope envelope = some bytes →
    prims.decodeHeadEnvelope bytes = some envelope
  node : ∀ left right bytes, prims.encodeNode left = some bytes → prims.encodeNode right = some bytes → left = right
  head : ∀ left right bytes, prims.encodeHead left = some bytes → prims.encodeHead right = some bytes → left = right

/-- The failure of a file operation; the text of the operating system behind the context is left out. -/
def localError (context : String) : Error := .invalidResponse context

/-- A failure of the core or of the cache codec as the client reports it. -/
def orInvalidResponse {ε α : Type} (display : ε → String) (result : Except ε α) : Except Error α :=
  match result with
  | .ok value => .ok value
  | .error error => .error (.invalidResponse (display error))

@[simp] theorem orInvalidResponse_eq_ok {ε α : Type} {display : ε → String} {result : Except ε α} {value : α} :
    orInvalidResponse display result = .ok value ↔ result = .ok value := by
  cases result <;> simp [orInvalidResponse]

/-! ### Identities and entries -/

/-- Decode exactly `width` bytes of lowercase hexadecimal text, refusing the all-zero identity. -/
def decodeHex (width : Nat) (value : Text) (context : String) : Except Error (Bytes width) := do
  ensure (.invalidResponse (context ++ " is invalid"))
    (value.length == width * 2 && !value.all (· == 48) && value.all fun byte => (hexValue byte).isSome)
  let bytes ← (hexDecode value).orFail (.invalidResponse ("decode " ++ context))
  if hlength : bytes.length = width then .ok ⟨bytes, hlength⟩
  else .error (.invalidResponse (context ++ " length differs"))

theorem decodeHex_eq_ok {width : Nat} {value : Text} {context : String} {bytes : Bytes width} :
    decodeHex width value context = .ok bytes ↔ value = hexEncode bytes.val ∧ bytes ≠ .zero width := by
  rw [← @Skydriver.decodeHex_eq_ok width value context bytes, decodeHex, Skydriver.decodeHex]
  simp only [bind_eq_ok, orFail_eq_ok, ensure_eq_ok]
  refine exists_congr fun _ => and_congr_right fun _ => exists_congr fun decoded => and_congr_right fun _ => ?_
  by_cases hlength : decoded.length = width
  · rw [dif_pos hlength, dif_pos hlength]
    exact ⟨fun h => congrArg Except.ok (Except.ok.inj h), fun h => congrArg Except.ok (Except.ok.inj h)⟩
  · simp only [dif_neg hlength, reduceCtorEq]

theorem decodeHex_bind_eq_ok {width : Nat} {value : Text} {context : String} {β : Type} {next : Except Error β}
    {result : β} :
    (decodeHex width value context >>= fun _ => next) = .ok result ↔ IsIdentity width value ∧ next = .ok result := by
  simp only [bind_eq_ok, decodeHex_eq_ok, IsIdentity]
  constructor
  · rintro ⟨bytes, ⟨hvalue, hbytes⟩, hnext⟩
    exact ⟨⟨bytes, hbytes, hvalue⟩, hnext⟩
  · rintro ⟨⟨bytes, hbytes, hvalue⟩, hnext⟩
    exact ⟨bytes, ⟨hvalue, hbytes⟩, hnext⟩

def merkleEntry (entry : CatalogEntry) : Except Error DirectoryMerkleEntry := do
  let dataRoot ← decodeHex 32 entry.dataRoot "catalog entry data root"
  match entry.kind with
  | .file => do
      ensure (.invalidResponse "catalog file entry union is invalid")
        (!(entry.childDirectoryId.isSome || entry.metadataRoot.isNone))
      let stableId ← decodeHex 16 (entry.fileId.getD []) "catalog file identity"
      let versionId ← decodeHex 16 (entry.versionId.getD []) "catalog version identity"
      let metadataRoot ← decodeHex 32 (entry.metadataRoot.getD []) "catalog metadata root"
      .ok (.file entry.name stableId versionId entry.sizeBytes dataRoot metadataRoot)
  | .directory => do
      ensure (.invalidResponse "catalog directory entry union is invalid")
        (!(entry.fileId.isSome || entry.versionId.isSome || entry.metadataRoot.isSome || entry.sizeBytes != 0))
      let stableId ← decodeHex 16 (entry.childDirectoryId.getD []) "catalog child identity"
      .ok (.directory entry.name stableId dataRoot)

def checkpointEntry (entry : CatalogEntry) : CatalogCheckpointEntry where
  name := entry.name
  kind := match entry.kind with
    | .file => .file
    | .directory => .directory
  fileId := entry.fileId
  versionId := entry.versionId
  childDirectoryId := entry.childDirectoryId
  sizeBytes := entry.sizeBytes
  dataRoot := entry.dataRoot
  metadataRoot := entry.metadataRoot

def nodeEntry (entry : CatalogCheckpointEntry) : CatalogEntry where
  name := entry.name
  kind := match entry.kind with
    | .file => .file
    | .directory => .directory
  fileId := entry.fileId
  versionId := entry.versionId
  childDirectoryId := entry.childDirectoryId
  sizeBytes := entry.sizeBytes
  dataRoot := entry.dataRoot
  metadataRoot := entry.metadataRoot

def checkpointNode (directory : CatalogCheckpointDirectory) : CatalogNode where
  schema := nodeSchema
  directoryId := directory.directoryId
  dataRoot := directory.dataRoot
  entries := directory.entries.map nodeEntry

@[simp] theorem checkpointEntry_nodeEntry (entry : CatalogCheckpointEntry) :
    checkpointEntry (nodeEntry entry) = entry := by
  obtain ⟨name, kind, fileId, versionId, childDirectoryId, sizeBytes, dataRoot, metadataRoot⟩ := entry
  cases kind <;> rfl

@[simp] theorem nodeEntry_checkpointEntry (entry : CatalogEntry) : nodeEntry (checkpointEntry entry) = entry := by
  obtain ⟨name, kind, fileId, versionId, childDirectoryId, sizeBytes, dataRoot, metadataRoot⟩ := entry
  cases kind <;> rfl

@[simp] theorem checkpointNode_entries (directory : CatalogCheckpointDirectory) :
    (checkpointNode directory).entries.map checkpointEntry = directory.entries := by
  simp [checkpointNode, Function.comp_def]

theorem getD_eq_hexEncode {width : Nat} {bytes : Bytes width} {value : Option Text} (hbytes : bytes ≠ .zero width)
    (h : value.getD [] = hexEncode bytes.val) : value = some (hexEncode bytes.val) := by
  cases value with
  | some text => exact congrArg some h
  | none =>
      have hlength := congrArg List.length h
      rw [hexEncode_length, bytes.length_val] at hlength
      have hwidth : width = 0 := by simpa using hlength.symm
      subst hwidth
      exact absurd (Bytes.ext (List.eq_nil_of_length_eq_zero bytes.length_val)) hbytes

theorem merkleEntry_eq_ok {entry : CatalogEntry} {committed : DirectoryMerkleEntry} :
    merkleEntry entry = .ok committed ↔
      checkpointEntry entry = catalogEntry committed ∧ NonzeroIdentities committed := by
  constructor
  · intro h
    obtain ⟨name, kind, fileId, versionId, childDirectoryId, sizeBytes, dataRoot, metadataRoot⟩ := entry
    rw [merkleEntry, bind_eq_ok] at h
    obtain ⟨root, hroot, h⟩ := h
    rw [decodeHex_eq_ok] at hroot
    obtain ⟨rfl, hroot⟩ := hroot
    cases kind with
    | file =>
        simp only [bind_eq_ok, ensure_eq_ok, decodeHex_eq_ok, Bool.not_eq_true', Bool.or_eq_false_iff,
          Option.isSome_eq_false_iff, Option.isNone_iff_eq_none] at h
        obtain ⟨_, ⟨rfl, _⟩, stable, ⟨hstable, hstableZero⟩, version, ⟨hversion, hversionZero⟩, metadata,
          ⟨hmetadata, hmetadataZero⟩, hcommitted⟩ := h
        cases hcommitted
        rw [getD_eq_hexEncode hstableZero hstable, getD_eq_hexEncode hversionZero hversion,
          getD_eq_hexEncode hmetadataZero hmetadata]
        exact ⟨rfl, hstableZero, hversionZero, hroot, hmetadataZero⟩
    | directory =>
        simp only [bind_eq_ok, ensure_eq_ok, decodeHex_eq_ok, Bool.not_eq_true', Bool.or_eq_false_iff,
          Option.isSome_eq_false_iff, Option.isNone_iff_eq_none, bne_eq_false_iff_eq] at h
        obtain ⟨_, ⟨⟨⟨rfl, rfl⟩, rfl⟩, rfl⟩, stable, ⟨hstable, hstableZero⟩, hcommitted⟩ := h
        cases hcommitted
        rw [getD_eq_hexEncode hstableZero hstable]
        exact ⟨rfl, hstableZero, hroot⟩
  · rintro ⟨hentry, hnonzero⟩
    rw [← nodeEntry_checkpointEntry entry, hentry]
    cases committed with
    | file name stableId versionId sizeBytes dataRoot metadataRoot =>
        obtain ⟨hstable, hversion, hdata, hmetadata⟩ := hnonzero
        simp only [merkleEntry, catalogEntry, nodeEntry, bind_eq_ok, decodeHex_eq_ok, ensure_eq_ok]
        exact ⟨dataRoot, ⟨rfl, hdata⟩, (), rfl, stableId, ⟨rfl, hstable⟩, versionId, ⟨rfl, hversion⟩, metadataRoot,
          ⟨rfl, hmetadata⟩, rfl⟩
    | directory name stableId dataRoot =>
        obtain ⟨hstable, hdata⟩ := hnonzero
        simp only [merkleEntry, catalogEntry, nodeEntry, bind_eq_ok, decodeHex_eq_ok, ensure_eq_ok]
        exact ⟨dataRoot, ⟨rfl, hdata⟩, (), rfl, stableId, ⟨rfl, hstable⟩, rfl⟩

theorem traverse_merkleEntry_eq_ok {entries : List CatalogEntry} {committed : List DirectoryMerkleEntry} :
    Checked.traverse merkleEntry entries = .ok committed ↔
      entries.map checkpointEntry = committed.map catalogEntry ∧ ∀ entry ∈ committed, NonzeroIdentities entry := by
  rw [← Skydriver.traverse_merkleEntry_eq_ok, traverse_eq_ok, traverse_eq_ok, List.forall₂_map_left_iff]
  simp only [merkleEntry_eq_ok, Skydriver.merkleEntry_eq_ok]

/-! ### Nodes and heads -/

variable (prims : ClientPrimitives)

def validateNode (node : CatalogNode) (directoryId dataRoot : Text) : Except Error Unit := do
  ensure (.invalidResponse "catalog node identity differs")
    (node.schema == nodeSchema && node.directoryId == directoryId && node.dataRoot == dataRoot)
  let _ ← decodeHex 16 node.directoryId "catalog directory identity"
  let expectedRoot ← decodeHex 32 node.dataRoot "catalog directory root"
  ensure (.invalidResponse "catalog entries are not canonically ordered")
    (KeyOrder.windowsAscend CatalogEntry.name node.entries)
  let entries ← Checked.traverse merkleEntry node.entries
  let actualRoot ← orInvalidResponse Error.display (directoryMerkleRoot prims.toPrimitives entries)
  ensure (.invalidResponse "catalog directory Merkle root differs") (actualRoot = expectedRoot)

def canonicalNodeBytes (node : CatalogNode) : Except Error (List UInt8) :=
  (prims.encodeNode node).orFail (.invalidResponse "encode catalog node")

def validateHead (head : CatalogHead) : Except Error Unit := do
  let _ ← decodeHex 16 head.filesystemId "catalog head filesystem identity"
  let _ ← decodeHex 16 head.rootDirectoryId "catalog head root directory identity"
  let _ ← decodeHex 32 head.rootDataRoot "catalog head root"
  let _ ← decodeHex 32 head.checkpointSha256 "catalog head checkpoint SHA-256"
  orInvalidResponse Error.display (validateCatalogCheckpointEtag head.etag)
  ensure (.invalidResponse "catalog head identity differs")
    (!(head.schema != headSchema || head.revisionId == 0))

def canonicalHeadBytes (head : CatalogHead) : Except Error (List UInt8) :=
  (prims.encodeHead head).orFail (.invalidResponse "encode catalog head")

variable {prims} in
theorem validateNode_eq_ok {node : CatalogNode} {directoryId dataRoot : Text} :
    validateNode prims node directoryId dataRoot = .ok () ↔
      (node.schema = nodeSchema ∧ node.directoryId = directoryId ∧ node.dataRoot = dataRoot) ∧
      IsIdentity 16 directoryId ∧ IsIdentity 32 dataRoot ∧ KeyOrder.StrictlyOrdered CatalogEntry.name node.entries ∧
      CommitsTo prims.toPrimitives dataRoot (node.entries.map checkpointEntry) := by
  rw [validateNode, ensure_bind_eq_ok, decodeHex_bind_eq_ok, bind_eq_ok]
  simp only [bind_eq_ok, orInvalidResponse_eq_ok, ensure_eq_ok, decodeHex_eq_ok, traverse_merkleEntry_eq_ok,
    Bool.and_eq_true, beq_iff_eq, decide_eq_true_eq, and_assoc, KeyOrder.windowsAscend_iff]
  constructor
  · rintro ⟨hschema, rfl, rfl, hidentity, expected, hspelling, hnonzero, _, horder, committed, hentries, _, root, hroot, hsame⟩
    subst hsame
    exact ⟨hschema, rfl, rfl, hidentity, ⟨root, hnonzero, hspelling⟩, horder, committed, root, hentries, hroot,
      hspelling⟩
  · rintro ⟨hschema, rfl, rfl, hidentity, ⟨expected, hnonzero, hexpected⟩, horder, committed, root, hentries, hroot,
      hspelling⟩
    obtain rfl : expected = root := Bytes.ext (hexEncode_injective (hexpected.symm.trans hspelling))
    obtain ⟨_, hvalid, _⟩ := directoryMerkleRoot_succeeds_iff.mp ⟨expected, hroot⟩
    exact ⟨hschema, rfl, rfl, hidentity, expected, hspelling, hnonzero, (), horder, committed, hentries,
      fun entry hentry => validateDirectoryEntry_nonzero (hvalid entry hentry), expected, hroot, rfl⟩

variable {prims} in
theorem validateNode_checkpointNode {directory : CatalogCheckpointDirectory}
    (h : WellFormedDirectory prims.toPrimitives directory) :
    validateNode prims (checkpointNode directory) directory.directoryId directory.dataRoot = .ok () := by
  rw [validateNode_eq_ok, checkpointNode_entries]
  refine ⟨⟨rfl, rfl, rfl⟩, h.identity, h.rootIdentity, ?_, h.root⟩
  exact List.pairwise_map.mpr h.entryOrder

/-! ### Sealed files -/

/-- The file of a node: its shard directory and its name there. -/
structure NodePath where
  shard : Text
  name : Text
deriving DecidableEq

/-- The content address as a path.  Every caller passes hexadecimal text, so that two bytes are two characters. -/
def nodePath (directoryId dataRoot : Text) : Except Error NodePath := do
  ensure (.invalidResponse "catalog root cannot be sharded") (2 ≤ dataRoot.length)
  .ok ⟨dataRoot.take 2, directoryId ++ utf8 "-" ++ dataRoot ++ utf8 ".json"⟩

def nodeContext (directoryId dataRoot : Text) : Text := utf8 "node/" ++ directoryId ++ utf8 "/" ++ dataRoot

def headContext : Text := utf8 "head"

def sealFile (cipher : MetadataCache.MetadataCacheCipher) (context : Text) (nonce : Bytes 12)
    (plaintext : List UInt8) : Except Error (List UInt8) :=
  orInvalidResponse MetadataCache.Error.display
    (cipher.sealRecord prims.toFramePrimitives context nonce plaintext)

/-- The bounded plaintext of a node file. -/
def nodeEnvelope (node : CatalogNode) : Except Error (List UInt8) := do
  let nodeBytes ← canonicalNodeBytes prims node
  let encoded ← (prims.encodeEnvelope ⟨envelopeSchema, hexEncode (prims.sha256 nodeBytes).val, node⟩).orFail
    (.invalidResponse "encode catalog envelope")
  ensure (.invalidResponse "catalog node exceeds the local size bound") (encoded.length ≤ maximumNodeBytes)
  .ok encoded

/-- The node in a file, if the file is intact and belongs to the address. -/
def openNode (cipher : MetadataCache.MetadataCacheCipher) (directoryId dataRoot : Text) (sealed : List UInt8) :
    Except Error CatalogNode := do
  let encoded ← orInvalidResponse MetadataCache.Error.display
    (cipher.openRecord prims.toFramePrimitives (nodeContext directoryId dataRoot) sealed maximumNodeBytes)
  let envelope ← (prims.decodeEnvelope encoded).orFail (.invalidResponse "decode catalog node")
  let canonical ← (prims.encodeEnvelope envelope).orFail (.invalidResponse "encode catalog node")
  ensure (.invalidResponse "catalog node envelope is not canonical")
    (canonical == encoded && envelope.schema == envelopeSchema)
  let nodeBytes ← canonicalNodeBytes prims envelope.node
  ensure (.invalidResponse "catalog node envelope checksum differs")
    (envelope.sha256 == hexEncode (prims.sha256 nodeBytes).val)
  validateNode prims envelope.node directoryId dataRoot
  .ok envelope.node

/-- The bounded plaintext of the head file. -/
def headEnvelope (head : CatalogHead) : Except Error (List UInt8) := do
  let headBytes ← canonicalHeadBytes prims head
  let encoded ← (prims.encodeHeadEnvelope ⟨headEnvelopeSchema, hexEncode (prims.sha256 headBytes).val, head⟩).orFail
    (.invalidResponse "encode catalog head")
  ensure (.invalidResponse "catalog head exceeds the local size bound") (encoded.length ≤ maximumHeadBytes)
  .ok encoded

/-- The head in its file, if the file is intact. -/
def openHead (cipher : MetadataCache.MetadataCacheCipher) (sealed : List UInt8) : Except Error CatalogHead := do
  let encoded ← orInvalidResponse MetadataCache.Error.display
    (cipher.openRecord prims.toFramePrimitives headContext sealed maximumHeadBytes)
  let envelope ← (prims.decodeHeadEnvelope encoded).orFail (.invalidResponse "decode catalog head")
  let canonical ← (prims.encodeHeadEnvelope envelope).orFail (.invalidResponse "encode catalog head")
  ensure (.invalidResponse "catalog head envelope is not canonical")
    (canonical == encoded && envelope.schema == headEnvelopeSchema)
  let headBytes ← canonicalHeadBytes prims envelope.head
  ensure (.invalidResponse "catalog head envelope checksum differs")
    (envelope.sha256 == hexEncode (prims.sha256 headBytes).val)
  validateHead envelope.head
  .ok envelope.head

theorem nodePath_injective {directoryId directoryId' dataRoot dataRoot' : Text} {path : NodePath}
    (hlength : directoryId.length = directoryId'.length) (h : nodePath directoryId dataRoot = .ok path)
    (h' : nodePath directoryId' dataRoot' = .ok path) : directoryId = directoryId' ∧ dataRoot = dataRoot' := by
  rw [nodePath, ensure_bind_eq_ok, Except.ok.injEq] at h h'
  have hname := congrArg NodePath.name (h.2.trans h'.2.symm)
  simp only [List.append_assoc] at hname
  obtain ⟨hid, hbehind⟩ := List.append_inj hname hlength
  exact ⟨hid, List.append_cancel_right (List.append_cancel_left hbehind)⟩

/-- The path of an address that `load` accepts. -/
theorem nodePath_of_identity {dataRoot : Text} (directoryId : Text) (hroot : IsIdentity 32 dataRoot) :
    nodePath directoryId dataRoot =
      .ok ⟨dataRoot.take 2, directoryId ++ utf8 "-" ++ dataRoot ++ utf8 ".json"⟩ := by
  obtain ⟨bytes, _, rfl⟩ := hroot
  rw [nodePath, ensure_bind_eq_ok, hexEncode_length, bytes.length_val]
  exact ⟨rfl, rfl⟩

variable {prims}

theorem openNode_valid {cipher : MetadataCache.MetadataCacheCipher} {directoryId dataRoot : Text}
    {sealed : List UInt8} {node : CatalogNode} (h : openNode prims cipher directoryId dataRoot sealed = .ok node) :
    validateNode prims node directoryId dataRoot = .ok () ∧ ∃ bytes, canonicalNodeBytes prims node = .ok bytes := by
  simp only [openNode, bind_eq_ok, ensure_eq_ok, Except.ok.injEq] at h
  obtain ⟨encoded, _, envelope, _, canonical, _, _, _, nodeBytes, hbytes, _, _, _, hvalid, rfl⟩ := h
  exact ⟨hvalid, nodeBytes, hbytes⟩

theorem sealFile_bounded {cipher : MetadataCache.MetadataCacheCipher} {context : Text} {nonce : Bytes 12}
    {plaintext sealed : List UInt8} {maximum : Nat} (hmaximum : plaintext.length ≤ maximum)
    (hfits : maximum + MetadataCache.overhead < 2 ^ 64)
    (h : sealFile prims cipher context nonce plaintext = .ok sealed) :
    sealed.length ≤ MetadataCache.maximumEncodedBytes maximum := by
  rw [sealFile, orInvalidResponse_eq_ok] at h
  rw [MetadataCache.sealRecord_length h, MetadataCache.maximumEncodedBytes, MetadataCache.saturatingAdd]
  omega

theorem openNode_sealFile (hlaws : prims.Laws) {cipher : MetadataCache.MetadataCacheCipher} {nonce : Bytes 12}
    {node : CatalogNode} {directoryId dataRoot : Text} {encoded sealed : List UInt8}
    (hvalid : validateNode prims node directoryId dataRoot = .ok ()) (hencoded : nodeEnvelope prims node = .ok encoded)
    (hsealed : sealFile prims cipher (nodeContext directoryId dataRoot) nonce encoded = .ok sealed) :
    openNode prims cipher directoryId dataRoot sealed = .ok node ∧
      sealed.length ≤ MetadataCache.maximumEncodedBytes maximumNodeBytes := by
  simp only [nodeEnvelope, bind_eq_ok, orFail_eq_ok, ensure_eq_ok, decide_eq_true_eq, Except.ok.injEq] at hencoded
  obtain ⟨nodeBytes, hbytes, _, henvelope, _, hbound, rfl⟩ := hencoded
  refine ⟨?_, sealFile_bounded hbound (by decide) hsealed⟩
  rw [sealFile, orInvalidResponse_eq_ok] at hsealed
  rw [openNode, MetadataCache.openRecord_sealRecord hlaws.decrypts hsealed hbound]
  simp only [orInvalidResponse, ok_bind, hlaws.envelope _ _ henvelope, some_orFail, henvelope, beq_self_eq_true,
    Bool.and_self, ensure_true, hbytes, hvalid]

theorem openHead_sealFile (hlaws : prims.Laws) {cipher : MetadataCache.MetadataCacheCipher} {nonce : Bytes 12}
    {head : CatalogHead} {encoded sealed : List UInt8} (hvalid : validateHead head = .ok ())
    (hencoded : headEnvelope prims head = .ok encoded)
    (hsealed : sealFile prims cipher headContext nonce encoded = .ok sealed) :
    openHead prims cipher sealed = .ok head ∧ sealed.length ≤ MetadataCache.maximumEncodedBytes maximumHeadBytes := by
  simp only [headEnvelope, bind_eq_ok, orFail_eq_ok, ensure_eq_ok, decide_eq_true_eq, Except.ok.injEq] at hencoded
  obtain ⟨headBytes, hbytes, _, henvelope, _, hbound, rfl⟩ := hencoded
  refine ⟨?_, sealFile_bounded hbound (by decide) hsealed⟩
  rw [sealFile, orInvalidResponse_eq_ok] at hsealed
  rw [openHead, MetadataCache.openRecord_sealRecord hlaws.decrypts hsealed hbound]
  simp only [orInvalidResponse, ok_bind, hlaws.headEnvelope _ _ henvelope, some_orFail, henvelope, beq_self_eq_true,
    Bool.and_self, ensure_true, hbytes, hvalid]

end Client

end Skydriver
