import Skydriver.Control.Lifecycle

/-!
# The namespace handlers

`prepare`, `commit`, `create`, `remove` and `rename` as programs over the database: each query is one read, each batch
one write, and the validation of the staged block manifest one call to the bucket.  A handler receives the digest of
its own request and the identifiers it would draw at random as part of the request.
-/

namespace Skydriver

/-! ### Batches, effects and responses -/

/-- Every batch or single statement that a handler submits. -/
inductive Mutation where
  | putPrepare (batch : PutPrepareBatch)
  | evidence (batch : EvidenceBatch)
  | putCommit (batch : PutCommitBatch)
  | mkdir (batch : MkdirBatch)
  | remove (batch : RemoveBatch)
  | rename (batch : RenameBatch)
  | tokenIssue (batch : TokenIssueBatch)
  | tokenRevoke (batch : TokenRevokeBatch)
  | aclReplace (batch : AclReplaceBatch)
  | placementReplace (batch : PlacementReplaceBatch)
  | maintenance (now : Nat)
  | markUnreachable (now : Nat)
  | createTasks
  | locationClaim (id : Identity) (now : Nat)
  | locationComplete (id : Identity) (expectedRevision fencingToken now : Nat)
  | locationFail (id : Identity) (fencingToken : Nat) (retryAt : Option Nat)
  | putClaim (id : Identity) (now : Nat)
  | putFinish (id : Identity) (fencingToken : Nat) (outcome : PutTaskOutcome) (now : Nat)
  | clientClaim (tokenId id : Identity) (leaseExpiresAt now : Nat)
  | clientRevalidate (fence : DeletionFence) (leaseExpiresAt now : Nat)
  | clientComplete (fence : DeletionFence) (now : Nat)
  | clientFail (fence : DeletionFence) (retryAt : Nat)
  | uploadOpen (intentId : Identity) (driverRevision : Nat)
  | uploadBind (intentId : Identity) (uploadId : Text)
  | uploadClaim (id : Identity) (now : Nat)
  | uploadFinish (id : Identity) (fencingToken : Nat) (retryAt : Option Nat) (now : Nat)
  | uploadPrune (now : Nat)
  | leaseGrant (grant : LeaseGrant)
  | leaseComplete (tokenId : Identity) (leaseIds : List Identity) (now : Nat)

/-- Carry out one batch; the reply says whether a counted statement changed its row. -/
def execute : Mutation → Database → Option (Database × Bool)
  | .putPrepare batch, db => (executePutPrepare batch db).map (·, true)
  | .evidence batch, db => (executeEvidence batch db).map (·, true)
  | .putCommit batch, db => (executePutCommit batch db).map (·, true)
  | .mkdir batch, db => (executeMkdir batch db).map (·, true)
  | .remove batch, db => (executeRemove batch db).map (·, true)
  | .rename batch, db => (executeRename batch db).map (·, true)
  | .tokenIssue batch, db => (executeTokenIssue batch db).map (·, true)
  | .tokenRevoke batch, db => (executeTokenRevoke batch db).map (·, true)
  | .aclReplace batch, db => (executeAclReplace batch db).map (·, true)
  | .placementReplace batch, db => (executePlacementReplace batch db).map (·, true)
  | .maintenance now, db => (executeMaintenance now db).map (·, true)
  | .markUnreachable now, db => (executeMarkUnreachable now db).map (·, true)
  | .createTasks, db => (executeCreateTasks db).map (·, true)
  | .locationClaim id now, db => executeLocationClaim id now db
  | .locationComplete id expectedRevision fencingToken now, db =>
      executeLocationComplete id expectedRevision fencingToken now db
  | .locationFail id fencingToken retryAt, db => executeLocationFail id fencingToken retryAt db
  | .putClaim id now, db => executePutClaim id now db
  | .putFinish id fencingToken outcome now, db => executePutFinish id fencingToken outcome now db
  | .clientClaim tokenId id leaseExpiresAt now, db => executeClientClaim tokenId id leaseExpiresAt now db
  | .clientRevalidate fence leaseExpiresAt now, db => executeClientRevalidate fence leaseExpiresAt now db
  | .clientComplete fence now, db => executeClientComplete fence now db
  | .clientFail fence retryAt, db => executeClientFail fence retryAt db
  | .uploadOpen intentId driverRevision, db => (executeUploadOpen intentId driverRevision db).map (·, true)
  | .uploadBind intentId uploadId, db => executeUploadBind intentId uploadId db
  | .uploadClaim id now, db => executeUploadClaim id now db
  | .uploadFinish id fencingToken retryAt now, db => executeUploadFinish id fencingToken retryAt now db
  | .uploadPrune now, db => (executeUploadPrune now db).map (·, true)
  | .leaseGrant grant, db => executeLeaseGrant grant db
  | .leaseComplete tokenId leaseIds now, db => executeLeaseComplete tokenId leaseIds now db

inductive DeletionTask where
  | location (id : Identity)
  | abandonedPut (id : Identity)
deriving DecidableEq

/-- What a handler asks of the outside world. -/
inductive Effect where
  | validateStagedManifest (description : ObjectDescription) (r2Version : Text)
  | deleteObject (task : DeletionTask) (kind : DriverKind) (driverId storageKey : Text) (provider : ProviderIdentity)
      (sizeBytes : Nat)
  | cleanupUpload (intentId : Identity) (kind : DriverKind) (driverId storageKey : Text) (uploadId : Option Text)
deriving DecidableEq

/-- What the outside world answers: the manifest is valid or the object is gone, the request may be repeated, or it
must not be. -/
inductive Answer where
  | done
  | retry
  | blocked
deriving DecidableEq, Repr

/-- The body of a successful response. -/
inductive Receipt where
  | preparation (id : Identity) (intent : PutIntentRow)
  | putCommit (intent : PutIntentRow) (receipt : PutReceiptRow)
  | directoryCreate (operationId : Identity) (row : DirectoryCreateRow)
  | remove (operationId : Identity) (row : RemoveRow)
  | rename (operationId : Identity) (row : RenameRow)
  | tokenIssue (row : TokenIssueRow)
  | tokenRevoke (row : TokenRevokeRow)
  | policy (operationId : Identity) (row : PolicyRow)
  | deletion (task : Option (Identity × PutDeleteTaskRow × PutIntentRow))
  | driverGrant (intentId : Identity) (intent : PutIntentRow) (driverRevision expiresAt : Nat)
  | download (leaseId locationId : Identity) (location : LocationRow) (expiresAt : Nat)
  | leasesCompleted (leaseIds : List Identity) (now : Nat)
  | completed
deriving DecidableEq

/-- A response, or the error that the worker turns into one. -/
inductive Response where
  | ok (receipt : Receipt)
  | error (status : Nat) (message : String)
  | failure (message : String)
deriving DecidableEq

/-- A request handler of the control plane. -/
abbrev Handler := Program Database Mutation Bool Effect Answer Response

/-- `Response::error`. -/
def reject (status : Nat) (message : String) : Handler := .done (.error status message)

/-- Go on if the condition holds, and reject otherwise. -/
def check (condition : Bool) (status : Nat) (message : String) (next : Handler) : Handler :=
  if condition then next else reject status message

/-! ### Request validation -/

/-- The UTF-8 encodings of the characters that `str::trim` strips. -/
def whitespace : List Text :=
  [[9], [10], [11], [12], [13], [32], [194, 133], [194, 160], [225, 154, 128], [226, 128, 128], [226, 128, 129],
    [226, 128, 130], [226, 128, 131], [226, 128, 132], [226, 128, 133], [226, 128, 134], [226, 128, 135],
    [226, 128, 136], [226, 128, 137], [226, 128, 138], [226, 128, 168], [226, 128, 169], [226, 128, 175],
    [226, 129, 159], [227, 128, 128]]

/-- `valid_string`. -/
def validString (value : Text) (maximumBytes : Nat) : Bool :=
  !value.isEmpty && (whitespace.all fun space => !space.isPrefixOf value && !space.isSuffixOf value) &&
    value.length ≤ maximumBytes

/-- `char::is_control` somewhere in the text: C0, delete, or C1. -/
def hasControl : Text → Bool
  | [] => false
  | byte :: rest =>
      byte < 32 || byte == 127 || (byte == 194 && rest.head?.any fun next => 128 ≤ next && next < 160) ||
        hasControl rest

/-- `valid_idempotency_key` of remove and rename. -/
def validIdempotencyKey (value : Text) : Bool := !value.isEmpty && value.length ≤ 256 && !hasControl value

/-- `valid_integer`. -/
def validInteger (value : Nat) : Bool := value < 2 ^ 63

def maximumFileBlocks : Nat := 1000000
def maximumIdempotencyBytes : Nat := 256
def maximumDriverIdBytes : Nat := 256
def maximumProviderIdentityBytes : Nat := 1024
def maximumRebaseAttempts : Nat := 4
def preparationLifetimeSeconds : Nat := 24 * 60 * 60
def deleteGraceOfRemoval : Nat := 7 * 24 * 60 * 60

/-! ### Put -/

/-- The columns of a put intent that the request itself fixes, and the identifiers drawn for it. -/
structure PrepareRequest where
  directoryId : Identity
  entryName : Text
  expectedEntryRevision : Nat
  plaintextBytes : UInt64
  verificationBlockBytes : Nat
  verificationBlockCount : Nat
  fileRoot : Digest
  metadataRoot : Digest
  blockManifestSha256 : Digest
  blockManifestBytes : Nat
  encryptionFrameBytes : Nat
  preferredDriverId : Option Text
  idempotencyKey : Text
  requestSha256 : Digest
  intentId : Identity
  newFileId : Identity
  versionId : Identity
  locationId : Identity
  storageKey : Text

/-- `expected_block_count`. -/
def expectedBlockCount (sizeBytes blockBytes : Nat) : Nat :=
  if sizeBytes = 0 then 0 else 1 + (sizeBytes - 1) / blockBytes

/-- `valid_prepare_request`. -/
def validPrepareRequest (prims : Primitives) (request : PrepareRequest) : Bool :=
  request.directoryId ≠ .zero 16 && isCanonicalName prims request.entryName &&
    request.expectedEntryRevision < 2 ^ 63 - 1 && validInteger request.plaintextBytes.toNat &&
    request.verificationBlockBytes > 0 && validInteger request.verificationBlockBytes &&
    request.verificationBlockCount ==
      expectedBlockCount request.plaintextBytes.toNat request.verificationBlockBytes &&
    request.verificationBlockCount ≤ maximumFileBlocks && request.fileRoot ≠ .zero 32 &&
    request.metadataRoot ≠ .zero 32 && request.blockManifestSha256 ≠ .zero 32 && request.blockManifestBytes > 0 &&
    validInteger request.blockManifestBytes && request.encryptionFrameBytes > 0 &&
    request.encryptionFrameBytes ≤ request.verificationBlockBytes &&
    request.verificationBlockBytes % request.encryptionFrameBytes == 0 &&
    validInteger request.encryptionFrameBytes &&
    (request.preferredDriverId.all fun driver => validString driver maximumDriverIdBytes) &&
    validString request.idempotencyKey maximumIdempotencyBytes

def loadPreparedIntent (db : Database) (principalId directoryId : Identity) (idempotencyKey : Text) :
    Option (Identity × PutIntentRow) :=
  (db.journal.putIntents.entries.find? fun row =>
    row.2.principalId == principalId && row.2.directoryId == directoryId &&
      row.2.idempotencyKey == idempotencyKey).map fun row => (row.1, row.2)

/-- `replay_response`. -/
def replayResponse (found : Identity × PutIntentRow) (requestSha256 : Digest) : Response :=
  if found.2.requestSha256 ≠ requestSha256 then .error 409 "idempotency key pins another VFS put"
  else if found.2.state ≠ .prepared ∧ found.2.state ≠ .committed then
    .error 409 "VFS put intent is no longer resumable"
  else .ok (.preparation found.1 found.2)

/-- The entry precondition of `prepare`: the file to write, its revision and its version. -/
def preparedTarget (request : PrepareRequest) (db : Database) : Option (Identity × Nat × Option Identity) :=
  match db.tree.entries.lookup (request.directoryId, request.entryName) with
  | none => if request.expectedEntryRevision = 0 then some (request.newFileId, 0, none) else none
  | some ⟨.file fileId versionId _ _ _, revision⟩ =>
      match db.objects.files.lookup fileId with
      | some file =>
          if request.expectedEntryRevision > 0 ∧ revision = request.expectedEntryRevision ∧
              some versionId = file.currentVersionId then
            some (fileId, file.revision, file.currentVersionId)
          else none
      | none => none
  | some ⟨.directory _ _, _⟩ => none

/-- The intent row that `insert_intent` binds. -/
def preparedIntent (token : AuthenticatedToken) (request : PrepareRequest) (context : Database.PutContext)
    (target : Identity × Nat × Option Identity) (now : Nat) : PutIntentRow where
  filesystemId := context.filesystemId
  principalId := token.principalId
  tokenId := token.id
  directoryId := request.directoryId
  entryName := request.entryName
  expectedEntryRevision := request.expectedEntryRevision
  expectedFileRevision := target.2.1
  expectedCurrentVersionId := target.2.2
  fileId := target.1
  versionId := request.versionId
  locationId := request.locationId
  driverId := context.driverId
  storageKey := request.storageKey
  description :=
    ⟨request.plaintextBytes, request.verificationBlockBytes, request.verificationBlockCount, request.fileRoot,
      request.blockManifestSha256, request.blockManifestBytes, context.cryptoSuite, context.keyEpoch,
      request.encryptionFrameBytes⟩
  metadataRoot := request.metadataRoot
  requestSha256 := request.requestSha256
  idempotencyKey := request.idempotencyKey
  state := .prepared
  expiresAt := now + preparationLifetimeSeconds
  revision := 1

/-- `vfs_put::prepare`. -/
def prepare (prims : Primitives) (token : AuthenticatedToken) (request : PrepareRequest) : Handler :=
  check (validPrepareRequest prims request) 400 "invalid VFS put preparation" <|
  .read fun db =>
  let existing := loadPreparedIntent db token.principalId request.directoryId request.idempotencyKey
  .read fun db =>
  match db.authorizeContext token request.directoryId
      ((existing.map fun found => found.2.driverId).or request.preferredDriverId) with
  | none => reject 403 "VFS put preparation is not authorized"
  | some context =>
  match existing with
  | some found => .done (replayResponse found request.requestSha256)
  | none =>
  .read fun db =>
  match preparedTarget request db with
  | none => reject 409 "VFS entry precondition changed"
  | some target =>
  .read fun clock =>
  .write (.putPrepare ⟨request.intentId, preparedIntent token request context target clock.now⟩) fun reply =>
  .read fun db =>
  match loadPreparedIntent db token.principalId request.directoryId request.idempotencyKey with
  | some found => .done (replayResponse found request.requestSha256)
  | none =>
      if reply.isNone then reject 409 "VFS put preparation lost its precondition"
      else reject 409 "VFS put preparation was not recorded"

/-- A request to publish one uploaded object; `proof.commitSha256` is the digest of the request. -/
structure CommitRequest where
  intentId : Identity
  proof : UploadProof

/-- `valid_commit_request`. -/
def validCommitRequest (request : CommitRequest) : Bool :=
  let valid (value : Text) := validString value maximumProviderIdentityBytes
  valid request.proof.blockManifestR2Version && validInteger request.proof.encodedBytes &&
    request.proof.encodedSha256 ≠ .zero 32 && request.proof.provider.nativeId.all valid &&
    request.proof.provider.providerVersion.all valid && request.proof.provider.etag.all valid

/-- `expected_encoded_bytes`. -/
def expectedEncodedBytes (description : ObjectDescription) : Option Nat :=
  let plaintextBytes := description.plaintextBytes.toNat
  match description.cryptoSuite with
  | .plaintext => some plaintextBytes
  | .encrypted =>
      if description.encryptionFrameBytes > 0 then
        checkedAdd plaintextBytes (expectedBlockCount plaintextBytes description.encryptionFrameBytes * 16)
      else none

/-- `load_intent` of the commit protocol. -/
def loadIntent (db : Database) (intentId principalId : Identity) : Option PutIntentRow :=
  (db.journal.putIntents.lookup intentId).filter fun intent => intent.principalId == principalId

/-- The receipt of a committed intent, checked against the digest of the request. -/
def putReceiptResponse (db : Database) (intentId : Identity) (commitSha256 : Digest) : Option Response :=
  match db.journal.putReceipts.lookup intentId, db.journal.putIntents.lookup intentId with
  | some receipt, some intent =>
      if intent.state ≠ .committed then none
      else if receipt.proof.commitSha256 ≠ commitSha256 then
        some (.error 409 "VFS put commit identity conflicts with its receipt")
      else some (.ok (.putCommit intent receipt))
  | _, _ => none

/-- The rebase loop of `commit`. -/
def commitAttempts (prims : Primitives) (token : AuthenticatedToken) (request : CommitRequest) (intent : PutIntentRow) :
    Nat → Handler
  | 0 => reject 409 "VFS directory roots remained contended"
  | attempts + 1 => do
      match ← planDirectoryRoots prims intent with
      | .failed error => .done (.failure error.message)
      | .contended => commitAttempts prims token request intent attempts
      | .preconditionChanged => reject 409 "VFS entry precondition changed"
      | .planned plan =>
          .read fun clock =>
          .write (.putCommit ⟨request.intentId, token, request.proof, plan, clock.now⟩) fun reply =>
          .read fun db =>
          match putReceiptResponse db request.intentId request.proof.commitSha256 with
          | some response => .done response
          | none =>
          check reply.isNone 409 "VFS put commit did not publish a receipt" <|
          .read fun db =>
          match loadIntent db request.intentId token.principalId with
          | none => reject 409 "VFS put intent disappeared"
          | some current =>
          check (current.state == .prepared) 409 "VFS put commit lost its intent state" <|
          commitAttempts prims token request intent attempts

/-- `vfs_put_commit::commit`. -/
def commit (prims : Primitives) (token : AuthenticatedToken) (request : CommitRequest) : Handler :=
  check (validCommitRequest request) 400 "invalid VFS put commit" <|
  .read fun db =>
  match loadIntent db request.intentId token.principalId with
  | none => reject 404 "VFS put intent was not found"
  | some intent =>
  .read fun db =>
  match putReceiptResponse db request.intentId request.proof.commitSha256 with
  | some response => .done response
  | none =>
  .read fun clock =>
  check (intent.state == .prepared && intent.expiresAt > clock.now) 409 "VFS put intent is no longer committable" <|
  match expectedEncodedBytes intent.description with
  | none => reject 409 "VFS object encoding is unsupported"
  | some expected =>
  check (request.proof.encodedBytes == expected) 409 "VFS object encoded length differs" <|
  .read fun db =>
  check (db.putAuthorized token intent.directoryId intent.driverId) 403 "VFS put commit is not authorized" <|
  .call (.validateStagedManifest intent.description request.proof.blockManifestR2Version) fun answer =>
  if answer ≠ .done then .done (.failure "validate staged VFS block manifest")
  else
  .read fun clock =>
  .write (.evidence ⟨request.intentId, token.id, request.proof, clock.now⟩) fun reply =>
  .read fun db =>
  match db.journal.uploadEvidence.lookup request.intentId with
  | none =>
      if reply.isSome then reject 409 "VFS upload evidence was not recorded"
      else
      .read fun db =>
      match loadIntent db request.intentId token.principalId with
      | none => reject 409 "VFS put intent expired before evidence was recorded"
      | some current =>
      check (current.state == .prepared && current.expiresAt > db.now) 409
        "VFS put intent expired before evidence was recorded" <|
      .done (.failure "record VFS upload evidence")
  | some evidence =>
  check (evidence.proof.commitSha256 == request.proof.commitSha256) 409
    "VFS put commit identity conflicts with upload evidence" <|
  commitAttempts prims token request intent maximumRebaseAttempts

/-! ### Mkdir, remove and rename -/

/-- The rebase loop shared by `create`, `remove` and `rename`: plan, submit, and replay the receipt that the batch or an
earlier one of the same request left. -/
def rebase (planner : Program Database Mutation Bool Effect Answer Planning) (batch : RootPlan → Mutation)
    (replay : Database → Option Response) (precondition omitted : String) : Nat → Handler
  | 0 => reject 409 "VFS directory roots remained contended"
  | attempts + 1 => do
      match ← planner with
      | .failed error => .done (.failure error.message)
      | .contended => rebase planner batch replay precondition omitted attempts
      | .preconditionChanged => reject 409 precondition
      | .planned plan =>
          .write (batch plan) fun reply =>
          .read fun db =>
          match replay db with
          | some response => .done response
          | none =>
          check reply.isNone 409 omitted <|
          rebase planner batch replay precondition omitted attempts

structure CreateRequest where
  parentDirectoryId : Identity
  name : Text
  cryptoSuite : Option CryptoSuite
  idempotencyKey : Text
  requestSha256 : Digest
  operationId : Identity
  childDirectoryId : Identity

/-- The receipt of an earlier directory creation under the same key. -/
def createReceiptResponse (db : Database) (tokenId : Identity) (idempotencyKey : Text) (requestSha256 : Digest) :
    Option Response :=
  (db.journal.directoryCreates.entries.find? fun row =>
    row.2.tokenId == tokenId && row.2.idempotencyKey == idempotencyKey).map fun row =>
      if row.2.requestSha256 ≠ requestSha256 then
        .error 409 "VFS mkdir idempotency key already has another request"
      else .ok (.directoryCreate row.1 row.2)

/-- `vfs_directory_management::create`. -/
def create (prims : Primitives) (token : AuthenticatedToken) (request : CreateRequest) : Handler :=
  check (request.parentDirectoryId ≠ .zero 16) 400 "invalid VFS parent directory ID" <|
  check (isCanonicalName prims request.name && validString request.idempotencyKey maximumIdempotencyBytes) 400
    "invalid VFS directory-create request" <|
  .read fun db =>
  check (db.authorized token request.parentDirectoryId .contentWrite) 403 "VFS content-write authority required" <|
  .read fun db =>
  match createReceiptResponse db token.id request.idempotencyKey request.requestSha256 with
  | some response => .done response
  | none =>
  .read fun db =>
  match (db.tree.directories.lookup request.parentDirectoryId).filter fun row => row.state == .active with
  | none => reject 404 "VFS parent directory not found"
  | some parent =>
  .read fun db =>
  check (db.hasEnabledPlacement request.parentDirectoryId) 409 "VFS parent has no usable driver placement" <|
  match directoryMerkleRoot prims [] with
  | .error _ => .done (.failure "compute empty VFS directory root")
  | .ok emptyRoot =>
  .read fun clock =>
  rebase
    (planNewChildDirectoryRoots prims parent.filesystemId request.parentDirectoryId request.childDirectoryId
      request.name emptyRoot)
    (fun plan => .mkdir
      ⟨token, request.requestSha256, request.idempotencyKey, request.operationId, parent.filesystemId,
        request.parentDirectoryId, request.childDirectoryId, request.name,
        request.cryptoSuite.getD parent.cryptoSuite, emptyRoot, plan, clock.now⟩)
    (fun db => createReceiptResponse db token.id request.idempotencyKey request.requestSha256)
    "VFS directory name is no longer absent" "VFS directory creation omitted its receipt" maximumRebaseAttempts

/-- `load_entry` of remove and rename: an entry of an active directory, with the filesystem it lies in. -/
def loadEntry (db : Database) (directoryId : Identity) (name : Text) : Option (Identity × EntryRow) :=
  match db.tree.entries.lookup (directoryId, name), db.tree.directories.lookup directoryId with
  | some entry, some directory => if directory.state = .active then some (directory.filesystemId, entry) else none
  | _, _ => none

/-- A check that concerns only an entry that is a directory. -/
def checkChild (content : EntryContent) (test : Database → Identity → Bool) (message : String) (next : Handler) :
    Handler :=
  match content with
  | .file _ _ _ _ _ => next
  | .directory childDirectoryId _ => .read fun db => check (test db childDirectoryId) 409 message next

structure RemoveRequest where
  directoryId : Identity
  name : Text
  expectedEntryRevision : Nat
  idempotencyKey : Text
  requestSha256 : Digest
  operationId : Identity

def removeReceiptResponse (db : Database) (tokenId : Identity) (idempotencyKey : Text) (requestSha256 : Digest) :
    Option Response :=
  (db.journal.removals.entries.find? fun row =>
    row.2.tokenId == tokenId && row.2.idempotencyKey == idempotencyKey).map fun row =>
      if row.2.requestSha256 ≠ requestSha256 then .error 409 "VFS remove idempotency identity changed"
      else .ok (.remove row.1 row.2)

/-- `vfs_namespace_mutation::remove`. -/
def remove (prims : Primitives) (token : AuthenticatedToken) (request : RemoveRequest) : Handler :=
  check (request.directoryId ≠ .zero 16 && isCanonicalName prims request.name && request.expectedEntryRevision ≠ 0 &&
    validIdempotencyKey request.idempotencyKey) 400 "invalid VFS remove request" <|
  .read fun checkedIn =>
  check (checkedIn.authorized token request.directoryId .entryDelete) 403 "VFS entry-delete authority required" <|
  .read fun db =>
  match removeReceiptResponse db token.id request.idempotencyKey request.requestSha256 with
  | some response => .done response
  | none =>
  .read fun db =>
  match loadEntry db request.directoryId request.name with
  | none => reject 404 "VFS entry was not found"
  | some (filesystemId, entry) =>
  check (entry.revision == request.expectedEntryRevision) 409 "VFS entry revision changed" <|
  if entry.content.subjectId = .zero 16 then .done (.failure "VFS entry subject is invalid")
  else
  checkChild entry.content (fun db child => !(db.tree.entries.any fun key _ => key.1 == child))
    "VFS directory is not empty" <|
  checkChild entry.content (fun db child => !db.isExplicitMount child)
    "VFS mount point must be unmounted before removal" <|
  .read fun clock =>
  rebase
    (planEntryRemovalRoots prims filesystemId request.directoryId request.name request.expectedEntryRevision)
    (fun plan => .remove
      ⟨token, request.requestSha256, request.idempotencyKey, request.operationId, filesystemId, request.directoryId,
        request.name, request.expectedEntryRevision, entry,
        match entry.content with
        | .file _ _ _ _ _ => some (clock.now + deleteGraceOfRemoval)
        | .directory _ _ => none,
        plan, clock.now, checkedIn⟩)
    (fun db => removeReceiptResponse db token.id request.idempotencyKey request.requestSha256)
    "VFS remove precondition changed" "VFS remove omitted its receipt" maximumRebaseAttempts

structure RenameRequest where
  target : RenameTarget
  expectedSourceRevision : Nat
  idempotencyKey : Text
  requestSha256 : Digest
  operationId : Identity

def renameReceiptResponse (db : Database) (tokenId : Identity) (idempotencyKey : Text) (requestSha256 : Digest) :
    Option Response :=
  (db.journal.renames.entries.find? fun row =>
    row.2.tokenId == tokenId && row.2.idempotencyKey == idempotencyKey).map fun row =>
      if row.2.requestSha256 ≠ requestSha256 then .error 409 "VFS rename idempotency identity changed"
      else .ok (.rename row.1 row.2)

/-- `vfs_namespace_mutation::rename`. -/
def rename (prims : Primitives) (token : AuthenticatedToken) (request : RenameRequest) : Handler :=
  let target := request.target
  check (target.sourceDirectoryId ≠ .zero 16 && target.destinationDirectoryId ≠ .zero 16 &&
    isCanonicalName prims target.sourceName && isCanonicalName prims target.destinationName &&
    request.expectedSourceRevision ≠ 0 && validIdempotencyKey request.idempotencyKey &&
    !(target.sourceDirectoryId == target.destinationDirectoryId && target.sourceName == target.destinationName)) 400
    "invalid VFS rename request" <|
  .read fun sourceCheckedIn =>
  check (sourceCheckedIn.authorized token target.sourceDirectoryId .entryDelete) 403
    "VFS rename requires entry.delete and content.write" <|
  .read fun destinationCheckedIn =>
  check (destinationCheckedIn.authorized token target.destinationDirectoryId .contentWrite) 403
    "VFS rename requires entry.delete and content.write" <|
  .read fun db =>
  match renameReceiptResponse db token.id request.idempotencyKey request.requestSha256 with
  | some response => .done response
  | none =>
  .read fun db =>
  match loadEntry db target.sourceDirectoryId target.sourceName with
  | none => reject 404 "VFS rename source was not found"
  | some (filesystemId, entry) =>
  check (entry.revision == request.expectedSourceRevision) 409 "VFS rename source revision changed" <|
  .read fun db =>
  match (db.tree.directories.lookup target.destinationDirectoryId).filter fun row => row.state == .active with
  | none => reject 404 "VFS rename destination was not found"
  | some destination =>
  check (destination.filesystemId == filesystemId) 409 "VFS rename cannot cross filesystems" <|
  if entry.content.subjectId = .zero 16 then .done (.failure "VFS rename subject is invalid")
  else
  .read fun db =>
  check (db.sameEffectiveDriver target.sourceDirectoryId target.destinationDirectoryId) 409
    "VFS rename cannot cross mounted drivers" <|
  checkChild entry.content (fun db child => !db.isExplicitMount child) "VFS mount point cannot be renamed" <|
  .read fun clock =>
  rebase
    (planEntryRenameRoots prims filesystemId target request.expectedSourceRevision)
    (fun plan => .rename
      ⟨token, request.requestSha256, request.idempotencyKey, request.operationId, filesystemId, target,
        request.expectedSourceRevision, entry, plan, clock.now, sourceCheckedIn, destinationCheckedIn⟩)
    (fun db => renameReceiptResponse db token.id request.idempotencyKey request.requestSha256)
    "VFS rename precondition changed" "VFS rename omitted its receipt" maximumRebaseAttempts

end Skydriver
