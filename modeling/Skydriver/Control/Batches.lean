import Skydriver.Control.Planner
import Skydriver.Control.Quota

/-!
# The batches of the namespace protocols

What one committed D1 batch of put, mkdir, remove and rename does, statement by statement, with every constraint and
trigger that can abort it.  A batch is data: the rows its handler loaded before it and the plan computed from reads of
its own.  Audit rows are left out.
-/

namespace Skydriver

/-! ### Catalog revisions -/

/-- `catalog_statements`: a new pending revision over the current head, and the head moved to it.  The head trigger
rejects an update time that runs backwards. -/
def Journal.publish (filesystemId : Identity) (kind : MutationKind) (mutationId : Identity) (root : Digest) (now : Nat)
    (journal : Journal) : Option Journal := do
  require !(journal.catalogRevisions.any fun _ row => row.mutationKind == kind && row.mutationId == mutationId)
  let head := journal.mutationHeads.lookup filesystemId
  require (head.all fun row => row.updatedAt ≤ now)
  some { journal with
    catalogRevisions := journal.catalogRevisions.insert journal.nextCatalogRevision
      ⟨filesystemId, head.map MutationHeadRow.revisionId, root, kind, mutationId⟩
    nextCatalogRevision := journal.nextCatalogRevision + 1
    mutationHeads := journal.mutationHeads.insert filesystemId
      ⟨journal.nextCatalogRevision, (head.map MutationHeadRow.revision).getD 0 + 1, now⟩ }

/-- The triggers that supersede a put delete task once its storage key holds a location again. -/
def Lifecycle.supersede (intents : Table Identity PutIntentRow) (holds : Text → Text → Bool) (lifecycle : Lifecycle) :
    Lifecycle :=
  { lifecycle with
    putTasks := lifecycle.putTasks.mapRows fun id task =>
      if (intents.lookup id).any (fun intent => holds intent.driverId intent.storageKey) ∧
          (task.state = .pending ∨ task.state = .claimed ∨ task.state = .failed) then
        { task with
          state := .superseded
          ownerTokenId := none
          incarnation := none
          leaseExpiresAt := none
          retryAt := none }
      else task }

/-- Trigger `supersede_vfs_r2_cleanup_on_receipt`. -/
def Lifecycle.supersedeUpload (intentId : Identity) (now : Nat) (lifecycle : Lifecycle) : Lifecycle :=
  { lifecycle with
    uploadTasks := lifecycle.uploadTasks.modify intentId fun task =>
      if task.state = .active ∨ task.state = .cleaning ∨ task.state = .failed then
        { task with state := .superseded, leaseExpiresAt := none, retryAt := none, completedAt := some now }
      else task }

/-! ### Put -/

/-- One prepared upload: `INSERT INTO vfs_put_intents … ON CONFLICT(principal_id, directory_id, idempotency_key) DO
NOTHING`. -/
structure PutPrepareBatch where
  intentId : Identity
  intent : PutIntentRow

/-- Trigger `validate_vfs_put_intent_target`: the entry is absent, or still the file and version expected. -/
def putPreconditionHolds (db : Database) (intent : PutIntentRow) : Bool :=
  let entry := db.tree.entries.lookup (intent.directoryId, intent.entryName)
  let file := db.objects.files.lookup intent.fileId
  if intent.expectedEntryRevision = 0 then entry.isNone && file.isNone
  else
    match entry, file, intent.expectedCurrentVersionId with
    | some ⟨.file fileId versionId _ _ _, revision⟩, some found, some expected =>
        revision == intent.expectedEntryRevision && fileId == intent.fileId && versionId == expected &&
          found.filesystemId == intent.filesystemId && found.currentVersionId == some expected &&
          found.revision == intent.expectedFileRevision && found.state == .active
    | _, _, _ => false

def executePutPrepare (batch : PutPrepareBatch) (db : Database) : Option Database := do
  let intent := batch.intent
  require (isStoredName intent.entryName && intent.state == .prepared && intent.revision == 1)
  require (db.putTargetAvailable intent.filesystemId intent.directoryId intent.driverId intent.description.cryptoSuite
    intent.description.keyEpoch)
  require !(db.objects.locations.any fun _ location =>
    location.driverId == intent.driverId && location.storageKey == intent.storageKey)
  require (putPreconditionHolds db intent)
  require (intent.expiresAt > db.now)
  require (db.putTokenAuthorized intent.tokenId intent.principalId intent.directoryId intent.driverId)
  require (db.putGranted intent.directoryId intent.principalId)
  require (db.quotaAdmits intent)
  if db.journal.putIntents.any fun _ other =>
      other.principalId == intent.principalId && other.directoryId == intent.directoryId &&
        other.idempotencyKey == intent.idempotencyKey then some db
  else do
    require (batch.intentId ≠ .zero 16 && (db.journal.putIntents.lookup batch.intentId).isNone)
    require !(db.journal.putIntents.any fun _ other =>
      other.versionId == intent.versionId || other.locationId == intent.locationId ||
        (other.driverId == intent.driverId && other.storageKey == intent.storageKey))
    some { db with journal := { db.journal with putIntents := db.journal.putIntents.insert batch.intentId intent } }

/-- `INSERT INTO vfs_put_upload_evidence … ON CONFLICT(intent_id) DO NOTHING`. -/
structure EvidenceBatch where
  intentId : Identity
  evidence : EvidenceRow

def executeEvidence (batch : EvidenceBatch) (db : Database) : Option Database := do
  let intent ← db.journal.putIntents.lookup batch.intentId
  let token ← db.authority.tokens.lookup batch.evidence.tokenId
  require (intent.state == .prepared && intent.expiresAt > db.now && token.principalId == intent.principalId)
  if (db.journal.uploadEvidence.lookup batch.intentId).isSome then some db
  else
    some { db with
      journal := { db.journal with
        uploadEvidence := db.journal.uploadEvidence.insert batch.intentId batch.evidence } }

/-- The publication of one uploaded object.  The values a put binds are those of its intent, whose identity columns
are immutable, so the statements read them from the intent row. -/
structure PutCommitBatch where
  intentId : Identity
  token : AuthenticatedToken
  proof : UploadProof
  plan : RootPlan
  now : Nat

/-- The file, version, origin and location rows of a put.  The location passes through `staging` and `verified` to
`available`, and the version to `published`, in statements that always apply to the rows just inserted. -/
def putObjects (batch : PutCommitBatch) (intent : PutIntentRow) (tree : Tree) (objects : Objects) :
    Option Objects := do
  let files ←
    if intent.expectedEntryRevision = 0 then do
      require (intent.fileId ≠ .zero 16 && (objects.files.lookup intent.fileId).isNone)
      some (objects.files.insert intent.fileId ⟨intent.filesystemId, some intent.versionId, .active, 1⟩)
    else
      some (objects.files.modify intent.fileId fun file =>
        if file.revision = intent.expectedFileRevision ∧ file.currentVersionId = intent.expectedCurrentVersionId ∧
            file.currentVersionId.isSome then
          { file with currentVersionId := some intent.versionId, revision := file.revision + 1 }
        else file)
  let file ← files.lookup intent.fileId
  let directory ← tree.directories.lookup intent.directoryId
  require (intent.versionId ≠ .zero 16 && (objects.versions.lookup intent.versionId).isNone)
  require (directory.filesystemId == file.filesystemId && (objects.origins.lookup intent.versionId).isNone)
  require (intent.locationId ≠ .zero 16 && (objects.locations.lookup intent.locationId).isNone)
  require !(objects.locations.any fun _ location =>
    location.driverId == intent.driverId && location.storageKey == intent.storageKey)
  some {
    files
    versions := objects.versions.insert intent.versionId
      ⟨intent.fileId, intent.description, batch.proof.blockManifestR2Version, batch.proof.encodedBytes,
        batch.proof.encodedSha256, .published, some batch.now⟩
    origins := objects.origins.insert intent.versionId intent.directoryId
    locations := objects.locations.insert intent.locationId
      ⟨intent.versionId, intent.driverId, intent.storageKey, batch.proof.provider, batch.proof.encodedBytes,
        batch.proof.encodedSha256, .available, none, 3⟩ }

/-- The namespace statements of a put. -/
def putTree (batch : PutCommitBatch) (intent : PutIntentRow) (objects : Objects) (tree : Tree) : Option Tree := do
  require (tree.updatesWellFormed batch.plan.directories)
  require (tree.chainCurrent intent.filesystemId intent.directoryId batch.plan.directories)
  let tree ←
    if intent.expectedEntryRevision = 0 then
      tree.insertEntry objects intent.directoryId intent.entryName ⟨putContent intent, 1⟩
    else
      tree.updateFileEntry objects intent.directoryId intent.entryName intent.fileId
        (intent.expectedCurrentVersionId.getD (.zero 16)) intent.expectedEntryRevision intent.versionId
        intent.description.plaintextBytes intent.description.fileRoot intent.metadataRoot
  tree.applyChain batch.plan.directories batch.plan.links

/-- What `validate_committed_vfs_put_intent` checks of the published rows. -/
def putPublished (batch : PutCommitBatch) (intent : PutIntentRow) (tree : Tree) (objects : Objects) : Bool :=
  ((objects.files.lookup intent.fileId).any fun file =>
      file.filesystemId == intent.filesystemId && file.currentVersionId == some intent.versionId &&
        file.revision == intent.expectedFileRevision + 1) &&
    ((objects.versions.lookup intent.versionId).any fun version =>
      version.fileId == intent.fileId && version.description == intent.description &&
        version.blockManifestR2Version == batch.proof.blockManifestR2Version &&
        version.encodedBytes == batch.proof.encodedBytes && version.encodedSha256 == batch.proof.encodedSha256 &&
        version.state == .published) &&
    ((objects.locations.lookup intent.locationId).any fun location =>
      location.versionId == intent.versionId && location.driverId == intent.driverId &&
        location.storageKey == intent.storageKey && location.sizeBytes == batch.proof.encodedBytes &&
        location.objectSha256 == batch.proof.encodedSha256 && location.provider == batch.proof.provider &&
        location.state == .available) &&
    tree.entries.lookup (intent.directoryId, intent.entryName) ==
      some ⟨putContent intent, intent.expectedEntryRevision + 1⟩ &&
    tree.updatesApplied batch.plan.directories && tree.chainLinked batch.plan.root batch.plan.directories

def executePutCommit (batch : PutCommitBatch) (db : Database) : Option Database := do
  let intent ← db.journal.putIntents.lookup batch.intentId
  require (intent.state == .prepared && intent.expiresAt > db.now)
  let objects ← putObjects batch intent db.tree db.objects
  let tree ← putTree batch intent objects db.tree
  let journal ← db.journal.publish intent.filesystemId .put batch.intentId batch.plan.root batch.now
  -- the receipt needs matching evidence, and the commit trigger rereads everything just written
  let evidence ← journal.uploadEvidence.lookup batch.intentId
  require (evidence.proof == batch.proof && (journal.putReceipts.lookup batch.intentId).isNone)
  let after : Database := { db with
    tree
    objects
    lifecycle := (db.lifecycle.supersede db.journal.putIntents fun driverId storageKey =>
      driverId == intent.driverId && storageKey == intent.storageKey).supersedeUpload batch.intentId db.now
    journal := { journal with
      putReceipts := journal.putReceipts.insert batch.intentId
        ⟨batch.token.id, batch.proof, intent.expectedEntryRevision + 1, db.journal.nextCatalogRevision, batch.now⟩
      putIntents := journal.putIntents.insert batch.intentId
        { intent with state := .committed, revision := intent.revision + 1 } } }
  require (after.putTokenAuthorized batch.token.id intent.principalId intent.directoryId intent.driverId)
  require (after.putTargetAvailable intent.filesystemId intent.directoryId intent.driverId
    intent.description.cryptoSuite intent.description.keyEpoch)
  require (after.putGranted intent.directoryId intent.principalId)
  require (putPublished batch intent tree objects)
  some after

/-! ### Mkdir -/

/-- The creation of one empty directory. -/
structure MkdirBatch where
  token : AuthenticatedToken
  requestSha256 : Digest
  idempotencyKey : Text
  operationId : Identity
  filesystemId : Identity
  parentDirectoryId : Identity
  childDirectoryId : Identity
  name : Text
  cryptoSuite : CryptoSuite
  emptyRoot : Digest
  plan : RootPlan
  now : Nat

def mkdirRow (batch : MkdirBatch) : DirectoryRow where
  filesystemId := batch.filesystemId
  parentId := some batch.parentDirectoryId
  name := batch.name
  dataRoot := batch.emptyRoot
  cryptoSuite := batch.cryptoSuite
  activeKeyEpoch := 1
  aclInherits := true
  state := .active
  revision := 1

/-- The namespace statements of mkdir. -/
def mkdirTree (batch : MkdirBatch) (objects : Objects) (tree : Tree) : Option Tree := do
  require (tree.updatesWellFormed batch.plan.directories)
  require (tree.chainCurrent batch.filesystemId batch.parentDirectoryId batch.plan.directories)
  let tree ← tree.insertDirectory batch.childDirectoryId (mkdirRow batch) batch.parentDirectoryId
  let tree ← tree.insertEntry objects batch.parentDirectoryId batch.name
    ⟨.directory batch.childDirectoryId batch.emptyRoot, 1⟩
  tree.applyChain batch.plan.directories batch.plan.links

/-- The key epoch and the placement copied from the parent.  The placement trigger admits one active driver of
priority zero, and each insert bumps the placement revision of the child. -/
def mkdirAuthority (batch : MkdirBatch) (authority : Authority) : Option Authority := do
  require (authority.keyEpochs.lookup (batch.childDirectoryId, 1)).isNone
  let inherited := (authority.directoryDrivers.entries.filter fun row =>
    row.1.1 == batch.parentDirectoryId && row.2.active).map fun row => (row.1.2, row.2.writePriority)
  require (inherited.length ≤ 1 && inherited.all fun placement => placement.2 == 0)
  require !(authority.directoryDrivers.any fun key _ => key.1 == batch.childDirectoryId && !inherited.isEmpty)
  some { authority with
    keyEpochs := authority.keyEpochs.insert (batch.childDirectoryId, 1) (batch.cryptoSuite, .available)
    aclRevisions := authority.aclRevisions.insert batch.childDirectoryId 1
    placementRevisions := authority.placementRevisions.insert batch.childDirectoryId (1 + inherited.length)
    directoryDrivers := inherited.foldl (fun table placement =>
      table.insert (batch.childDirectoryId, placement.1) ⟨placement.2, true⟩) authority.directoryDrivers }

/-- What `validate_vfs_directory_create_commit` checks of the published rows. -/
def mkdirPublished (batch : MkdirBatch) (after : Database) : Bool :=
  after.tree.directories.lookup batch.childDirectoryId == some (mkdirRow batch) &&
    after.authority.aclRevisions.lookup batch.childDirectoryId == some 1 &&
    after.authority.keyEpochs.lookup (batch.childDirectoryId, 1) == some (batch.cryptoSuite, .available) &&
    after.tree.entries.lookup (batch.parentDirectoryId, batch.name) ==
      some ⟨.directory batch.childDirectoryId batch.emptyRoot, 1⟩ &&
    after.hasEnabledPlacement batch.childDirectoryId &&
    after.tree.updatesApplied batch.plan.directories && after.tree.chainLinked batch.plan.root batch.plan.directories

def executeMkdir (batch : MkdirBatch) (db : Database) : Option Database := do
  require (batch.operationId ≠ .zero 16 && (db.journal.directoryCreates.lookup batch.operationId).isNone)
  require !(db.journal.directoryCreates.any fun _ other =>
    (other.tokenId == batch.token.id && other.idempotencyKey == batch.idempotencyKey) ||
      other.directoryId == batch.childDirectoryId)
  let tree ← mkdirTree batch db.objects db.tree
  let authority ← mkdirAuthority batch db.authority
  let journal ← db.journal.publish batch.filesystemId .mkdir batch.operationId batch.plan.root batch.now
  let after : Database := { db with
    tree
    authority
    journal := { journal with
      directoryCreates := journal.directoryCreates.insert batch.operationId
        ⟨batch.token.id, batch.requestSha256, batch.idempotencyKey, batch.filesystemId, batch.parentDirectoryId,
          batch.childDirectoryId, batch.name, batch.emptyRoot, batch.cryptoSuite, 1, db.journal.nextCatalogRevision,
          batch.now⟩ } }
  require (after.chainAuthorized true batch.token.id batch.token.principalId batch.parentDirectoryId .contentWrite)
  require (mkdirPublished batch after)
  some after

/-! ### Remove -/

/-- The removal of one entry.  `entry` is the row the handler loaded before it planned, and `checkedIn` the database its
authority check read; no statement looks at the latter. -/
structure RemoveBatch where
  token : AuthenticatedToken
  requestSha256 : Digest
  idempotencyKey : Text
  operationId : Identity
  filesystemId : Identity
  directoryId : Identity
  name : Text
  expectedEntryRevision : Nat
  entry : EntryRow
  deleteAfter : Option Nat
  plan : RootPlan
  now : Nat
  checkedIn : Database

/-- Trigger `validate_vfs_remove_receipt`. -/
def removeProofApplied (batch : RemoveBatch) (tree : Tree) : Bool :=
  !batch.plan.directories.isEmpty && tree.updatesApplied batch.plan.directories &&
    (tree.entries.lookup (batch.directoryId, batch.name)).isNone &&
    match batch.entry.content with
    | .file _ _ _ _ _ => true
    | .directory childDirectoryId _ =>
        ((tree.directories.lookup childDirectoryId).any fun row => row.state == .tombstoned) &&
          !(tree.entries.any fun key _ => key.1 == childDirectoryId)

/-- The namespace statements of a removal. -/
def removeTree (batch : RemoveBatch) (tree : Tree) : Option Tree := do
  require (tree.updatesWellFormed batch.plan.directories)
  let tree := tree.deleteEntry batch.directoryId batch.name batch.expectedEntryRevision
  let tree :=
    match batch.entry.content with
    | .file _ _ _ _ _ => tree
    | .directory childDirectoryId _ => tree.tombstoneDirectory childDirectoryId
  let tree ← tree.applyChain batch.plan.directories batch.plan.links
  require (removeProofApplied batch tree)
  some tree

/-- The tombstones of a removed file, by the identities the handler loaded. -/
def removeObjects (batch : RemoveBatch) (objects : Objects) : Objects :=
  match batch.entry.content with
  | .directory _ _ => objects
  | .file fileId versionId _ _ _ =>
      { objects with
        files := objects.files.modify fileId fun file =>
          if file.state = .active ∧ file.currentVersionId = some versionId then
            { file with currentVersionId := none, state := .tombstoned, revision := file.revision + 1 }
          else file
        versions := objects.versions.modify versionId fun version =>
          if version.state = .published then { version with state := .tombstoned } else version
        locations := objects.locations.mapRows fun _ location =>
          if location.versionId = versionId ∧ location.state = .available then
            { location with
              state := .tombstoned
              deleteAfter := some (batch.deleteAfter.getD batch.now)
              revision := location.revision + 1 }
          else location }

/-- The storage keys whose location state a removal changes. -/
def removedKeys (batch : RemoveBatch) (objects : Objects) (driverId storageKey : Text) : Bool :=
  match batch.entry.content with
  | .directory _ _ => false
  | .file _ versionId _ _ _ =>
      objects.locations.any fun _ location =>
        location.versionId == versionId && location.state == .available && location.driverId == driverId &&
          location.storageKey == storageKey

def executeRemove (batch : RemoveBatch) (db : Database) : Option Database := do
  require (db.journal.removals.lookup batch.operationId).isNone
  require !(db.journal.removals.any fun _ other =>
    other.tokenId == batch.token.id && other.idempotencyKey == batch.idempotencyKey)
  require (match batch.entry.content with
    | .file _ _ _ _ _ => true
    | .directory childDirectoryId _ => !db.isExplicitMount childDirectoryId)
  let tree ← removeTree batch db.tree
  let journal ← db.journal.publish batch.filesystemId .remove batch.operationId batch.plan.root batch.now
  some { db with
    tree
    objects := removeObjects batch db.objects
    lifecycle := db.lifecycle.supersede db.journal.putIntents (removedKeys batch db.objects)
    journal := { journal with
      removals := journal.removals.insert batch.operationId
        ⟨batch.token.id, batch.requestSha256, batch.idempotencyKey, batch.filesystemId, batch.directoryId, batch.name,
          batch.entry.content.subjectId, db.journal.nextCatalogRevision, batch.deleteAfter, batch.now⟩ } }

/-! ### Rename -/

/-- The move of one entry.  `entry` is the row the handler loaded before it planned; `sourceCheckedIn` and
`destinationCheckedIn` are the databases its two authority checks read. -/
structure RenameBatch where
  token : AuthenticatedToken
  requestSha256 : Digest
  idempotencyKey : Text
  operationId : Identity
  filesystemId : Identity
  target : RenameTarget
  expectedSourceRevision : Nat
  entry : EntryRow
  plan : RootPlan
  now : Nat
  sourceCheckedIn : Database
  destinationCheckedIn : Database

/-- Trigger `validate_vfs_rename_receipt`. -/
def renameProofApplied (batch : RenameBatch) (tree : Tree) : Bool :=
  !batch.plan.directories.isEmpty && tree.updatesApplied batch.plan.directories &&
    (tree.entries.lookup (batch.target.sourceDirectoryId, batch.target.sourceName)).isNone &&
    (tree.entries.lookup (batch.target.destinationDirectoryId, batch.target.destinationName)).any fun row =>
      row.revision == batch.entry.revision + 1 && row.content.sameSubject batch.entry.content

/-- The namespace statements of a rename. -/
def renameTree (batch : RenameBatch) (objects : Objects) (tree : Tree) : Option Tree := do
  require (tree.updatesWellFormed batch.plan.directories)
  let tree := tree.deleteEntry batch.target.sourceDirectoryId batch.target.sourceName batch.expectedSourceRevision
  let tree ←
    match batch.entry.content with
    | .file _ _ _ _ _ => some tree
    | .directory childDirectoryId _ =>
        tree.moveDirectory childDirectoryId batch.target.sourceDirectoryId batch.target.sourceName
          batch.target.destinationDirectoryId batch.target.destinationName
  let tree ← tree.insertEntry objects batch.target.destinationDirectoryId batch.target.destinationName
    ⟨batch.entry.content, batch.entry.revision + 1⟩
  let tree ← tree.applyBranches batch.plan.directories batch.plan.links
  require (renameProofApplied batch tree)
  some tree

def executeRename (batch : RenameBatch) (db : Database) : Option Database := do
  require (db.journal.renames.lookup batch.operationId).isNone
  require !(db.journal.renames.any fun _ other =>
    other.tokenId == batch.token.id && other.idempotencyKey == batch.idempotencyKey)
  require (db.sameEffectiveDriver batch.target.sourceDirectoryId batch.target.destinationDirectoryId)
  require (match batch.entry.content with
    | .file _ _ _ _ _ => true
    | .directory childDirectoryId _ => !db.isExplicitMount childDirectoryId)
  let tree ← renameTree batch db.objects db.tree
  let journal ← db.journal.publish batch.filesystemId .rename batch.operationId batch.plan.root batch.now
  some { db with
    tree
    journal := { journal with
      renames := journal.renames.insert batch.operationId
        ⟨batch.token.id, batch.requestSha256, batch.idempotencyKey, batch.filesystemId,
          batch.target.sourceDirectoryId, batch.target.sourceName, batch.target.destinationDirectoryId,
          batch.target.destinationName, batch.entry.content.subjectId, batch.entry.revision + 1,
          db.journal.nextCatalogRevision, batch.now⟩ } }

end Skydriver
