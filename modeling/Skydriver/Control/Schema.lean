import Skydriver.Lib.Table
import Skydriver.Integrity.Directory

/-!
# The control-plane database

One record per table of the migrations, keyed by its primary key.  Rows that one batch always inserts together, such as
the intent and the receipt of a removal, are one row here, and the rows that scope one token (its actions and drivers)
or one plan (its directory updates) are lists inside their owner.  Timestamps that no check reads are left out.

The tables are grouped by what changes them: `Tree` is the namespace, `Objects` the stored versions, `Authority` the
tokens, grants and placements, `Journal` the protocol records, `Lifecycle` the deletion tasks.  `Surroundings` holds
the clock and the tables that other parts of the control plane administer.
-/

namespace Skydriver

/-- The protocol constants of `vfs_actions`. -/
inductive Action where
  | directoryList
  | contentRead
  | contentWrite
  | entryDelete
  | snapshotPublish
  | aclManage
  | tokenIssue
  | driverUse
  | driverManage
  | gcRun
  | auditRead
  | systemManage
deriving DecidableEq, Repr

/-- State of a directory or a file. -/
inductive RowState where
  | active
  | tombstoned
deriving DecidableEq, Repr

/-- `plaintext/v1` or the authenticated encryption suite. -/
inductive CryptoSuite where
  | plaintext
  | encrypted
deriving DecidableEq, Repr

/-! ### Namespace -/

/-- A row of `vfs_directories`, less its policy revisions. -/
structure DirectoryRow where
  filesystemId : Identity
  parentId : Option Identity
  name : Text
  dataRoot : Digest
  cryptoSuite : CryptoSuite
  activeKeyEpoch : Nat
  aclInherits : Bool
  state : RowState
  revision : Nat
deriving DecidableEq

/-- What an entry of either kind pins. -/
inductive EntryContent where
  | file (fileId versionId : Identity) (sizeBytes : UInt64) (dataRoot metadataRoot : Digest)
  | directory (childDirectoryId : Identity) (dataRoot : Digest)
deriving DecidableEq

/-- A row of `vfs_directory_entries`. -/
structure EntryRow where
  content : EntryContent
  revision : Nat
deriving DecidableEq

/-- The namespace: directories, and entries under their directory and name. -/
structure Tree where
  directories : Table Identity DirectoryRow
  entries : Table (Identity × Text) EntryRow

/-! ### Stored objects -/

/-- A row of `vfs_files`. -/
structure FileRow where
  filesystemId : Identity
  currentVersionId : Option Identity
  state : RowState
  revision : Nat
deriving DecidableEq

inductive VersionState where
  | staging
  | verified
  | published
  | tombstoned
deriving DecidableEq, Repr

/-- The immutable description that a put intent fixes and its version repeats. -/
structure ObjectDescription where
  plaintextBytes : UInt64
  verificationBlockBytes : Nat
  verificationBlockCount : Nat
  fileRoot : Digest
  blockManifestSha256 : Digest
  blockManifestBytes : Nat
  cryptoSuite : CryptoSuite
  keyEpoch : Nat
  encryptionFrameBytes : Nat
deriving DecidableEq

/-- How a provider names one stored object. -/
structure ProviderIdentity where
  nativeId : Option Text
  providerVersion : Option Text
  etag : Option Text
deriving DecidableEq

/-- What the client presents about a completed upload. -/
structure UploadProof where
  commitSha256 : Digest
  blockManifestR2Version : Text
  encodedBytes : Nat
  encodedSha256 : Digest
  completeReadback : Bool
  provider : ProviderIdentity
deriving DecidableEq

/-- A row of `vfs_file_versions`. -/
structure VersionRow where
  fileId : Identity
  description : ObjectDescription
  blockManifestR2Version : Text
  encodedBytes : Nat
  encodedSha256 : Digest
  state : VersionState
  publishedAt : Option Nat
deriving DecidableEq

inductive LocationState where
  | staging
  | verified
  | available
  | tombstoned
  | deleted
deriving DecidableEq, Repr

/-- A row of `vfs_locations`. -/
structure LocationRow where
  versionId : Identity
  driverId : Text
  storageKey : Text
  provider : ProviderIdentity
  sizeBytes : Nat
  objectSha256 : Digest
  state : LocationState
  deleteAfter : Option Nat
  revision : Nat
deriving DecidableEq

/-- Files, their versions, where each version came from and where its bytes are. -/
structure Objects where
  files : Table Identity FileRow
  versions : Table Identity VersionRow
  origins : Table Identity Identity
  locations : Table Identity LocationRow

/-! ### Authority and policy -/

/-- A row of `vfs_token_verifiers` with the rows that scope it. -/
structure TokenRow where
  principalId : Identity
  rootDirectoryId : Identity
  parentTokenId : Option Identity
  verifierSha256 : Digest
  snapshotId : Option Identity
  expiresAt : Nat
  sealedAt : Option Nat
  revokedAt : Option Nat
  actions : List Action
  drivers : List Text
deriving DecidableEq

inductive GrantSubject where
  | principal (id : Identity)
  | group (id : Identity)
deriving DecidableEq

/-- A row of `vfs_acl_grants`. -/
structure GrantRow where
  directoryId : Identity
  subject : GrantSubject
  action : Action
  sourceRole : Option Text
deriving DecidableEq

/-- A row of `vfs_directory_drivers`. -/
structure PlacementRow where
  writePriority : Nat
  active : Bool
deriving DecidableEq

/-- Whether a mount row records a root default or an explicit mount point. -/
inductive MountKind where
  | default
  | mount
deriving DecidableEq, Repr

inductive KeyState where
  | available
  | retired
  | destroyed
deriving DecidableEq, Repr

/-- Tokens, grants, placements and key epochs, with the policy revisions of each directory. -/
structure Authority where
  tokens : Table Identity TokenRow
  grants : Table Identity GrantRow
  aclRevisions : Table Identity Nat
  placementRevisions : Table Identity Nat
  directoryDrivers : Table (Identity × Text) PlacementRow
  mounts : Table Identity (Text × MountKind)
  keyEpochs : Table (Identity × Nat) (CryptoSuite × KeyState)

/-! ### Protocol records -/

inductive IntentState where
  | prepared
  | committed
  | abandoned
  | expired
deriving DecidableEq, Repr

/-- A row of `vfs_put_intents`. -/
structure PutIntentRow where
  filesystemId : Identity
  principalId : Identity
  tokenId : Identity
  directoryId : Identity
  entryName : Text
  expectedEntryRevision : Nat
  expectedFileRevision : Nat
  expectedCurrentVersionId : Option Identity
  fileId : Identity
  versionId : Identity
  locationId : Identity
  driverId : Text
  storageKey : Text
  description : ObjectDescription
  metadataRoot : Digest
  requestSha256 : Digest
  idempotencyKey : Text
  state : IntentState
  expiresAt : Nat
  revision : Nat
deriving DecidableEq

/-- A row of `vfs_put_upload_evidence`. -/
structure EvidenceRow where
  tokenId : Identity
  proof : UploadProof
  verifiedAt : Nat
deriving DecidableEq

/-- A row of `vfs_put_receipts`. -/
structure PutReceiptRow where
  tokenId : Identity
  proof : UploadProof
  entryRevision : Nat
  catalogRevisionId : Nat
  committedAt : Nat
deriving DecidableEq

/-- The intent and receipt of one committed directory creation. -/
structure DirectoryCreateRow where
  tokenId : Identity
  requestSha256 : Digest
  idempotencyKey : Text
  filesystemId : Identity
  parentDirectoryId : Identity
  directoryId : Identity
  name : Text
  dataRoot : Digest
  cryptoSuite : CryptoSuite
  keyEpoch : Nat
  catalogRevisionId : Nat
  createdAt : Nat
deriving DecidableEq

/-- The intent and receipt of one committed removal. -/
structure RemoveRow where
  tokenId : Identity
  requestSha256 : Digest
  idempotencyKey : Text
  filesystemId : Identity
  directoryId : Identity
  entryName : Text
  subjectId : Identity
  catalogRevisionId : Nat
  deleteAfter : Option Nat
  committedAt : Nat
deriving DecidableEq

/-- The intent and receipt of one committed rename. -/
structure RenameRow where
  tokenId : Identity
  requestSha256 : Digest
  idempotencyKey : Text
  filesystemId : Identity
  sourceDirectoryId : Identity
  sourceName : Text
  destinationDirectoryId : Identity
  destinationName : Text
  subjectId : Identity
  entryRevision : Nat
  catalogRevisionId : Nat
  committedAt : Nat
deriving DecidableEq

inductive PolicyKind where
  | aclReplace
  | placementReplace
deriving DecidableEq, Repr

/-- The intent and receipt of one committed policy mutation. -/
structure PolicyRow where
  kind : PolicyKind
  tokenId : Identity
  directoryId : Identity
  requestSha256 : Digest
  idempotencyKey : Text
  finalRevision : Nat
  committedAt : Nat
deriving DecidableEq

/-- A row of `vfs_token_issue_receipts`. -/
structure TokenIssueRow where
  requestSha256 : Digest
  principalId : Identity
  rootDirectoryId : Identity
  tokenId : Identity
  actions : List Action
  drivers : Option (List Text)
  expiresAt : Nat
deriving DecidableEq

/-- A row of `vfs_token_revoke_receipts`. -/
structure TokenRevokeRow where
  requestSha256 : Digest
  principalId : Identity
  targetTokenId : Identity
  rootDirectoryId : Identity
  revokedAt : Nat
deriving DecidableEq

/-- Which namespace mutation produced a catalog revision. -/
inductive MutationKind where
  | put
  | mkdir
  | remove
  | rename
deriving DecidableEq, Repr

/-- A row of `vfs_catalog_revisions`. -/
structure CatalogRevisionRow where
  filesystemId : Identity
  parentRevisionId : Option Nat
  rootDataRoot : Digest
  mutationKind : MutationKind
  mutationId : Identity
deriving DecidableEq

/-- A row of `vfs_catalog_mutation_heads`. -/
structure MutationHeadRow where
  revisionId : Nat
  revision : Nat
  updatedAt : Nat
deriving DecidableEq

/-- Intents, evidence, receipts and the catalog revisions they produce. -/
structure Journal where
  putIntents : Table Identity PutIntentRow
  uploadEvidence : Table Identity EvidenceRow
  putReceipts : Table Identity PutReceiptRow
  directoryCreates : Table Identity DirectoryCreateRow
  removals : Table Identity RemoveRow
  renames : Table Identity RenameRow
  policies : Table Identity PolicyRow
  tokenIssues : Table (Identity × Text) TokenIssueRow
  tokenRevokes : Table (Identity × Text) TokenRevokeRow
  catalogRevisions : Table Nat CatalogRevisionRow
  nextCatalogRevision : Nat
  mutationHeads : Table Identity MutationHeadRow

/-! ### Lifecycle tasks -/

inductive DeleteTaskState where
  | pending
  | claimed
  | retry
  | blocked
  | deleted
deriving DecidableEq, Repr

/-- A row of `vfs_location_delete_tasks`, under the location it deletes. -/
structure LocationDeleteTaskRow where
  expectedLocationRevision : Nat
  driverId : Text
  driverRevision : Nat
  storageKey : Text
  provider : ProviderIdentity
  sizeBytes : Nat
  deleteAfter : Nat
  state : DeleteTaskState
  fencingToken : Nat
  leaseExpiresAt : Option Nat
  retryAt : Option Nat
deriving DecidableEq

inductive PutDeleteTaskState where
  | pending
  | claimed
  | failed
  | deleted
  | superseded
deriving DecidableEq, Repr

/-- A row of `vfs_put_delete_tasks`, under the put intent whose upload it deletes. -/
structure PutDeleteTaskRow where
  driverRevision : Nat
  evidenceSha256 : Digest
  deleteAfter : Nat
  state : PutDeleteTaskState
  ownerTokenId : Option Identity
  incarnation : Option Identity
  fencingToken : Nat
  leaseExpiresAt : Option Nat
  retryAt : Option Nat
  revalidatedAt : Option Nat
  serverBlockedAt : Option Nat
deriving DecidableEq

inductive UploadCleanupState where
  | active
  | cleaning
  | failed
  | cleaned
  | superseded
deriving DecidableEq, Repr

/-- A row of `vfs_r2_upload_cleanup_tasks`, under the put intent whose upload it cleans up. -/
structure UploadCleanupTaskRow where
  driverRevision : Nat
  uploadId : Option Text
  state : UploadCleanupState
  fencingToken : Nat
  leaseExpiresAt : Option Nat
  retryAt : Option Nat
  completedAt : Option Nat
deriving DecidableEq

/-- A row of `vfs_read_leases`. -/
structure ReadLeaseRow where
  versionId : Identity
  locationId : Identity
  tokenId : Identity
  expiresAt : Nat
  createdAt : Nat
  completedAt : Option Nat
deriving DecidableEq

/-- Deletion and cleanup tasks, and the direct reads that hold deletion back. -/
structure Lifecycle where
  locationTasks : Table Identity LocationDeleteTaskRow
  putTasks : Table Identity PutDeleteTaskRow
  uploadTasks : Table Identity UploadCleanupTaskRow
  readLeases : Table Identity ReadLeaseRow

/-! ### Surroundings -/

inductive DriverKind where
  | aliyunDriveOpenV2
  | r2V1
  | awsS3V1
  | localFilesystemV2
deriving DecidableEq, Repr

/-- Whether the control plane can reach a driver's objects itself. -/
def DriverKind.controlPlane : DriverKind → Bool
  | .aliyunDriveOpenV2 | .r2V1 | .awsS3V1 => true
  | .localFilesystemV2 => false

/-- Whether uploads go through signed object requests, which leave a cleanup task behind. -/
def DriverKind.signedObject : DriverKind → Bool
  | .r2V1 | .awsS3V1 => true
  | .aliyunDriveOpenV2 | .localFilesystemV2 => false

/-- A row of `driver_instances`; an unknown kind stays unparsed. -/
structure DriverRow where
  kind : Option DriverKind
  enabled : Bool
  revision : Nat
deriving DecidableEq

/-- A row of `vfs_directory_quota_policies`; its limits are SQL integers. -/
structure DirectoryQuotaRow where
  maxFileBytes : Option (Fin (2 ^ 63))
  maxLogicalBytes : Option (Fin (2 ^ 63))
  maxFileCount : Option (Fin (2 ^ 63))
deriving DecidableEq

/-- A row of `driver_quota_policies`. -/
structure DriverQuotaRow where
  maxPhysicalBytes : Option (Fin (2 ^ 63))
  maxObjectCount : Option (Fin (2 ^ 63))
deriving DecidableEq

/-- The clock, the incarnation of the control plane, and the tables that management and snapshot handlers administer.
`ties` ranks the rows that an `ORDER BY` leaves tied, as the database happens to return them. -/
structure Surroundings where
  now : Nat
  ties : Identity → Nat
  incarnation : Identity
  principals : Table Identity RowState
  groups : Table Identity Identity
  groupMembers : List (Identity × Identity)
  drivers : Table Text DriverRow
  directoryQuotas : Table Identity DirectoryQuotaRow
  driverQuotas : Table Text DriverQuotaRow
  snapshotVersions : List Identity
  gcBlockedFilesystems : List Identity

structure Database where
  tree : Tree
  objects : Objects
  authority : Authority
  journal : Journal
  lifecycle : Lifecycle
  surroundings : Surroundings

end Skydriver
