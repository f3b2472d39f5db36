import Skydriver.Control.Transfers

/-!
# The control plane as a machine

The token, policy and lifecycle handlers, the requests that start a handler, and the machine that interleaves all of
them over one database.  Between any two steps the clock and the tables of other services may change, and grants may be
changed by group administration.
-/

namespace Skydriver

/-! ### Tokens -/

/-- The actions in the order of their names, which is how requests are canonicalized. -/
def orderedActions : List Action :=
  [.aclManage, .auditRead, .contentRead, .contentWrite, .directoryList, .driverManage, .driverUse, .entryDelete, .gcRun,
    .snapshotPublish, .systemManage, .tokenIssue]

/-- `canonicalize_strings` on actions. -/
def canonicalActions (actions : List Action) : List Action := orderedActions.filter fun action => actions.contains action

/-- `canonicalize_strings` on driver identifiers. -/
def canonicalDrivers (drivers : List Text) : List Text := (KeyOrder.sortByKey id drivers).dedup

/-- A request to issue a child token; `verifierSha256` is the digest of the bearer derived from the request. -/
structure IssueRequest where
  rootDirectoryId : Identity
  actions : List Action
  drivers : Option (List Text)
  expiresAt : Nat
  idempotencyKey : Text
  requestSha256 : Digest
  tokenId : Identity
  verifierSha256 : Digest

/-- `valid_issue_request`, after canonicalization. -/
def validIssueRequest (request : IssueRequest) : Bool :=
  request.rootDirectoryId ≠ .zero 16 && !(canonicalActions request.actions).isEmpty &&
    ((request.drivers.map canonicalDrivers).all fun drivers =>
      !drivers.isEmpty && drivers.length ≤ 256 && drivers.all fun driver => validString driver maximumDriverIdBytes) &&
    validInteger request.expiresAt && validString request.idempotencyKey maximumIdempotencyBytes

/-- `issue_response`. -/
def issueResponse (db : Database) (parent : AuthenticatedToken) (request : IssueRequest) : Option Response :=
  match db.journal.tokenIssues.lookup (parent.id, request.idempotencyKey) with
  | none => none
  | some receipt =>
      match db.authority.tokens.lookup receipt.tokenId with
      | none => none
      | some token =>
          if receipt.requestSha256 ≠ request.requestSha256 ∨ receipt.principalId ≠ parent.principalId then
            some (.error 409 "VFS token idempotency key already has another request")
          else if token.verifierSha256 ≠ request.verifierSha256 then
            some (.failure "VFS token receipt verifier diverged from derived bearer")
          else some (.ok (.tokenIssue receipt))

/-- `all_drivers_enabled`. -/
def allDriversEnabled : List Text → Handler → Handler
  | [], next => next
  | driver :: drivers, next =>
      .read fun db =>
      check (db.driverEnabled driver) 400 "VFS child token references an unavailable driver" <|
      allDriversEnabled drivers next

/-- `vfs_token_management::issue`; the three queries of `scope_narrows_parent` stand inline. -/
def issue (parent : AuthenticatedToken) (request : IssueRequest) : Handler :=
  let actions := canonicalActions request.actions
  let drivers := request.drivers.map canonicalDrivers
  let widens := "VFS child token would widen its parent"
  check (validIssueRequest request) 400 "invalid VFS token issue request" <|
  .read fun db =>
  check (db.authorized parent request.rootDirectoryId .tokenIssue) 403 "VFS token-issue authority required" <|
  .read fun clock =>
  check (request.expiresAt ≥ clock.now + 60 && request.expiresAt ≤ parent.expiresAt) 400
    "VFS child-token expiry is outside its parent" <|
  .read fun db =>
  check ((db.authority.tokens.lookup parent.id).any fun row => row.snapshotId.isNone) 400 widens <|
  .read fun db =>
  check (actions.all fun action =>
    (db.authority.tokens.lookup parent.id).any fun row => row.actions.contains action) 400 widens <|
  .read fun db =>
  check ((db.authority.tokens.lookup parent.id).all fun row =>
    row.drivers.isEmpty || drivers.any fun chosen => chosen.all row.drivers.contains) 400 widens <|
  .read fun db =>
  match issueResponse db parent request with
  | some response => .done response
  | none =>
  allDriversEnabled (drivers.getD []) <|
  .write (.tokenIssue
    ⟨parent, request.requestSha256, request.idempotencyKey, request.tokenId, request.verifierSha256,
      request.rootDirectoryId, actions, drivers, request.expiresAt, clock.now⟩) fun _ =>
  .read fun db =>
  match issueResponse db parent request with
  | some response => .done response
  | none => reject 409 "VFS token issuance conflicted; retry the exact request"

structure RevokeRequest where
  targetTokenId : Identity
  idempotencyKey : Text
  requestSha256 : Digest

/-- `revoke_response`. -/
def revokeResponse (db : Database) (authorizer : AuthenticatedToken) (request : RevokeRequest) : Option Response :=
  (db.journal.tokenRevokes.lookup (authorizer.id, request.idempotencyKey)).map fun receipt =>
    if receipt.requestSha256 ≠ request.requestSha256 then
      .error 409 "VFS token idempotency key already has another request"
    else .ok (.tokenRevoke receipt)

/-- `vfs_token_management::revoke`. -/
def revoke (authorizer : AuthenticatedToken) (request : RevokeRequest) : Handler :=
  check (request.targetTokenId ≠ .zero 16 && request.targetTokenId ≠ authorizer.id) 400
    "invalid VFS token revocation target" <|
  check (validString request.idempotencyKey maximumIdempotencyBytes) 400 "invalid VFS token revocation request" <|
  .read fun db =>
  match (db.authority.tokens.lookup request.targetTokenId).filter fun row => row.sealedAt.isSome with
  | none => reject 404 "VFS token not found"
  | some target =>
  check (target.principalId == authorizer.principalId) 403 "VFS token-issue authority required" <|
  .read fun db =>
  check (db.authorized authorizer target.rootDirectoryId .tokenIssue) 403 "VFS token-issue authority required" <|
  .read fun db =>
  match revokeResponse db authorizer request with
  | some response => .done response
  | none =>
  check target.revokedAt.isNone 409 "VFS token is already revoked" <|
  .read fun clock =>
  .write (.tokenRevoke
    ⟨authorizer, request.requestSha256, request.idempotencyKey, request.targetTokenId, target.rootDirectoryId,
      clock.now⟩) fun _ =>
  .read fun db =>
  match revokeResponse db authorizer request with
  | some response => .done response
  | none => reject 409 "VFS token revocation conflicted; retry the exact request"

/-! ### Policies -/

/-- `role_actions`. -/
def roleActions (role : Text) : Option (List Action) :=
  if role = utf8 "viewer" then some [.directoryList, .contentRead]
  else if role = utf8 "editor" then some [.directoryList, .contentRead, .contentWrite, .entryDelete]
  else if role = utf8 "publisher" then
    some [.directoryList, .contentRead, .contentWrite, .entryDelete, .snapshotPublish]
  else if role = utf8 "security_administrator" then some [.directoryList, .aclManage, .tokenIssue, .auditRead]
  else if role = utf8 "storage_operator" then some [.driverUse, .driverManage, .auditRead]
  else if role = utf8 "janitor" then some [.driverUse, .gcRun, .auditRead]
  else if role = utf8 "system_administrator" then
    some [.aclManage, .tokenIssue, .driverManage, .gcRun, .auditRead, .systemManage]
  else none

/-- A request to replace one subject's grants; `grantId` draws the identifier of each new grant. -/
structure AclRequest where
  directoryId : Identity
  principalId : Option Identity
  groupId : Option Identity
  actions : Option (List Action)
  role : Option Text
  expectedAclRevision : Nat
  idempotencyKey : Text
  requestSha256 : Digest
  operationId : Identity
  grantId : Nat → Identity

/-- `resolve_acl_scope`. -/
def resolveAclScope (request : AclRequest) : Option (List Action) :=
  match request.actions, request.role with
  | some actions, none => some actions
  | none, some role => roleActions role
  | _, _ => none

/-- Exactly one valid subject. -/
def aclSubject (request : AclRequest) : Option GrantSubject :=
  match request.principalId, request.groupId with
  | some principalId, none => if principalId ≠ .zero 16 then some (.principal principalId) else none
  | none, some groupId => if groupId ≠ .zero 16 then some (.group groupId) else none
  | _, _ => none

/-- The receipt of an earlier policy mutation under the same key. -/
def policyReceiptResponse (db : Database) (kind : PolicyKind) (tokenId : Identity) (idempotencyKey : Text)
    (requestSha256 : Digest) : Option Response :=
  (db.journal.policies.entries.find? fun row =>
    row.2.tokenId == tokenId && row.2.kind == kind && row.2.idempotencyKey == idempotencyKey).map fun row =>
      if row.2.requestSha256 ≠ requestSha256 then
        .error 409 "VFS policy idempotency key already has another request"
      else .ok (.policy row.1 row.2)

/-- A revision column of an active directory. -/
def loadPolicy (db : Database) (directoryId : Identity) (revisions : Authority → Table Identity Nat) : Option Nat :=
  match db.tree.directories.lookup directoryId, (revisions db.authority).lookup directoryId with
  | some row, some revision => if row.state = .active then some revision else none
  | _, _ => none

/-- `principal_active` or `group_available`. -/
def subjectAvailable (db : Database) (directoryId : Identity) (subject : GrantSubject) : Bool :=
  grantSubjectAvailable db directoryId subject &&
    match subject with
    | .principal _ => true
    | .group _ => (db.tree.directories.lookup directoryId).any fun row => row.state == .active

/-- `vfs_policy_management::replace_acl`. -/
def replaceAcl (token : AuthenticatedToken) (request : AclRequest) : Handler :=
  check (request.directoryId ≠ .zero 16) 400 "invalid VFS directory ID" <|
  match resolveAclScope request with
  | none => reject 400 "invalid VFS ACL replacement"
  | some scope =>
  let actions := canonicalActions scope
  match aclSubject request with
  | none => reject 400 "exactly one valid ACL subject is required"
  | some subject =>
  check (request.expectedAclRevision ≠ 0 && validString request.idempotencyKey maximumIdempotencyBytes) 400
    "invalid VFS ACL replacement" <|
  .read fun db =>
  match policyReceiptResponse db .aclReplace token.id request.idempotencyKey request.requestSha256 with
  | some response => .done response
  | none =>
  .read fun db =>
  check (db.authorized token request.directoryId .aclManage) 403 "VFS ACL-management authority required" <|
  .read fun db =>
  match loadPolicy db request.directoryId Authority.aclRevisions with
  | none => reject 404 "VFS directory not found"
  | some revision =>
  .read fun db =>
  check (subjectAvailable db request.directoryId subject) 400 "VFS ACL subject is unavailable" <|
  check (revision == request.expectedAclRevision) 409 "VFS ACL revision changed" <|
  .read fun db =>
  let oldCount := (db.authority.grants.entries.filter fun row =>
    row.2.directoryId == request.directoryId && row.2.subject == subject).length
  .read fun clock =>
  .write (.aclReplace
    ⟨⟨token, request.requestSha256, request.idempotencyKey, request.operationId, request.directoryId, revision,
        revision + oldCount + actions.length, clock.now⟩,
      subject, request.role, actions.mapIdx fun index action => (request.grantId index, action)⟩) fun _ =>
  .read fun db =>
  match policyReceiptResponse db .aclReplace token.id request.idempotencyKey request.requestSha256 with
  | some response => .done response
  | none => reject 409 "VFS ACL replacement conflicted"

structure PlacementRequest where
  directoryId : Identity
  placements : List (Text × Nat)
  expectedPlacementRevision : Nat
  idempotencyKey : Text
  requestSha256 : Digest
  operationId : Identity

/-- `valid_placements_request`: exactly one placement, of priority zero. -/
def validPlacement (request : PlacementRequest) : Option Text :=
  match request.placements with
  | [(driverId, writePriority)] =>
      if request.expectedPlacementRevision ≠ 0 ∧ validString request.idempotencyKey maximumIdempotencyBytes ∧
          validString driverId maximumDriverIdBytes ∧ writePriority = 0 then some driverId
      else none
  | _ => none

/-- `vfs_mounts::desired`; the outer `none` is a mount that would be nested or has no parent backing. -/
def desiredMount (db : Database) (directoryId : Identity) (driverId : Text) : Option (Option MountKind) := do
  let directory ← (db.tree.directories.lookup directoryId).filter fun row => row.state == .active
  match directory.parentId with
  | none => some (some .default)
  | some parentId =>
      let parentPlacement ← (db.placements parentId).head?
      if parentPlacement.1 = driverId then some none
      else do
        require !((db.tree.ancestors directoryId).any fun above =>
          above != directoryId && db.isExplicitMount above)
        some (some .mount)

/-- `vfs_policy_management::replace_placements`. -/
def replacePlacements (token : AuthenticatedToken) (request : PlacementRequest) : Handler :=
  let unscoped := "unscoped VFS driver-management authority required"
  check (request.directoryId ≠ .zero 16) 400 "invalid VFS directory ID" <|
  match validPlacement request with
  | none => reject 400 "invalid VFS placement replacement"
  | some driverId =>
  .read fun db =>
  match policyReceiptResponse db .placementReplace token.id request.idempotencyKey request.requestSha256 with
  | some response => .done response
  | none =>
  .read fun db =>
  check (db.authorized token request.directoryId .driverManage) 403 unscoped <|
  .read fun db =>
  check ((db.authority.tokens.lookup token.id).all fun row => row.drivers.isEmpty) 403 unscoped <|
  .read fun db =>
  check (db.driverEnabled driverId) 400 "VFS placement references an unavailable driver" <|
  .read fun db =>
  match loadPolicy db request.directoryId Authority.placementRevisions with
  | none => reject 404 "VFS directory not found"
  | some revision =>
  check (revision == request.expectedPlacementRevision) 409 "VFS placement revision changed" <|
  .read fun db =>
  match desiredMount db request.directoryId driverId with
  | none => reject 409 "VFS mount would be nested or has no parent backing"
  | some mount =>
  .read fun db =>
  check (mountChangeSafe db request.directoryId driverId) 409
    "VFS mount target must be empty before changing driver" <|
  .read fun db =>
  let oldCount := (db.authority.directoryDrivers.entries.filter fun row => row.1.1 == request.directoryId).length
  .read fun clock =>
  .write (.placementReplace
    ⟨⟨token, request.requestSha256, request.idempotencyKey, request.operationId, request.directoryId, revision,
        revision + oldCount + 1, clock.now⟩, driverId, mount⟩) fun _ =>
  .read fun db =>
  match policyReceiptResponse db .placementReplace token.id request.idempotencyKey request.requestSha256 with
  | some response => .done response
  | none => reject 409 "VFS placement replacement conflicted"

/-! ### Lifecycle -/

/-- `fail`, and `fail_abandoned_put`, with what follows. -/
def failLocation (id : Identity) (fencingToken now : Nat) (blocked : Bool) (next : Handler) : Handler :=
  .write (.locationFail id fencingToken
    (if blocked then none else some (now + retryDelay fencingToken fencingToken))) fun _ => next

def failAbandonedPut (id : Identity) (fencingToken now : Nat) (blocked : Bool) (next : Handler) : Handler :=
  .write (.putFinish id fencingToken
    (if blocked then .blocked else .retry (now + retryDelay fencingToken fencingToken)) now) fun _ => next

/-- `delete_one`: claim a due task, reload it under every fence, delete the object, and record the outcome. -/
def deleteOne (now : Nat) (next : Handler) : Handler :=
  .read fun db =>
  match firstByTime 1 (db.lifecycle.locationTasks.entries.filterMap fun row =>
      if locationTaskDue row.2 now then some (row.2.retryAt.getD row.2.deleteAfter, row.1) else none) with
  | [] => next
  | id :: _ =>
  .write (.locationClaim id now) fun claimed =>
  if claimed ≠ some true then next
  else
  .read fun db =>
  match (db.lifecycle.locationTasks.lookup id).filter fun task =>
      task.state == .claimed && task.leaseExpiresAt.any (· > now) with
  | none => next
  | some claim =>
  .read fun db =>
  match loadRevalidated db id now with
  | none => failLocation id claim.fencingToken now true next
  | some (task, driver) =>
  match driver.kind.filter DriverKind.controlPlane with
  | none => failLocation id task.fencingToken now true next
  | some kind =>
  .call (.deleteObject (.location id) kind task.driverId task.storageKey task.provider task.sizeBytes) fun answer =>
  match answer with
  | .done =>
      .write (.locationComplete id task.expectedLocationRevision task.fencingToken now) fun completed =>
      match completed with
      | none => .done (.failure "complete VFS location deletion")
      | some committed => if committed then next else failLocation id task.fencingToken now true next
  | .retry => failLocation id task.fencingToken now false next
  | .blocked => failLocation id task.fencingToken now true next

/-- `delete_one_abandoned_put`. -/
def deleteOneAbandonedPut (now : Nat) (next : Handler) : Handler :=
  .read fun db =>
  match firstByTime 1 (db.lifecycle.putTasks.entries.filterMap fun row =>
      if putTaskSafe db row.1 ∧ putTaskDue row.2 now then some (row.2.retryAt.getD row.2.deleteAfter, row.1)
      else none) with
  | [] => next
  | id :: _ =>
  .write (.putClaim id now) fun claimed =>
  if claimed ≠ some true then next
  else
  .read fun db =>
  match (db.lifecycle.putTasks.lookup id).filter fun task =>
      task.state == .claimed && task.leaseExpiresAt.any (· > now) with
  | none => next
  | some claim =>
  .read fun db =>
  match loadAbandonedPut db id now with
  | none => failAbandonedPut id claim.fencingToken now false next
  | some (task, intent, evidence, driver) =>
  match driver.kind.filter DriverKind.controlPlane with
  | none => failAbandonedPut id task.fencingToken now true next
  | some kind =>
  .call (.deleteObject (.abandonedPut id) kind intent.driverId intent.storageKey evidence.proof.provider
    evidence.proof.encodedBytes) fun answer =>
  match answer with
  | .done => .write (.putFinish id task.fencingToken .deleted now) fun _ => next
  | .retry => failAbandonedPut id task.fencingToken now false next
  | .blocked => failAbandonedPut id task.fencingToken now true next

/-- `cleanup_one_r2_upload`. -/
def cleanupOneUpload (now : Nat) (next : Handler) : Handler :=
  .read fun db =>
  match firstByTime 1 (db.lifecycle.uploadTasks.entries.filterMap fun row =>
      if uploadTaskSafe db row.1 ∧ uploadTaskDue row.2 now then
        some ((row.2.retryAt.or row.2.leaseExpiresAt).getD 0, row.1)
      else none) with
  | [] => next
  | id :: _ =>
  .write (.uploadClaim id now) fun claimed =>
  if claimed ≠ some true then next
  else
  .read fun db =>
  match loadUploadCleanup db id now with
  | none => next
  | some (task, intent, driver) =>
  let failed := .write (.uploadFinish id task.fencingToken
    (some (now + retryDelay task.fencingToken task.fencingToken)) now) fun _ => next
  match driver.kind with
  | none => failed
  | some kind =>
  .call (.cleanupUpload id kind intent.driverId intent.storageKey task.uploadId) fun answer =>
  if answer = .done then .write (.uploadFinish id task.fencingToken none now) fun _ => next else failed

/-- `vfs_server_lifecycle::run`, under the time its caller started with. -/
def runLifecycle (now : Nat) : Handler :=
  .write (.markUnreachable now) fun _ =>
  .write .createTasks fun _ =>
  deleteOne now <|
  deleteOneAbandonedPut now <|
  cleanupOneUpload now <|
  .done (.ok .completed)

/-- `maintenance::run`, less the sessions, claims and metrics it prunes. -/
def maintain : Handler :=
  .read fun clock =>
  .write (.maintenance clock.now) fun _ =>
  .write (.uploadPrune clock.now) fun _ =>
  runLifecycle clock.now

/-! ### The machine -/

/-- What a client asks for under its bearer. -/
inductive Operation where
  | prepare (request : PrepareRequest)
  | commit (request : CommitRequest)
  | create (request : CreateRequest)
  | remove (request : RemoveRequest)
  | rename (request : RenameRequest)
  | issue (request : IssueRequest)
  | revoke (request : RevokeRequest)
  | replaceAcl (request : AclRequest)
  | replacePlacements (request : PlacementRequest)
  | grantPutDriver (intentId : Identity)
  | grantPutMultipart (intentId : Identity) (uploadId : Text)
  | planDownload (versionId leaseId : Identity)
  | completeRead (leaseId : Identity)
  | completeReads (leaseIds : List Identity)
  | claimDeletion (leaseSeconds : Option Nat)
  | revalidateDeletion (taskId incarnation : Identity) (fencingToken : Nat) (leaseSeconds : Option Nat)
  | completeDeletion (taskId incarnation : Identity) (fencingToken : Nat)
  | failDeletion (taskId incarnation : Identity) (fencingToken : Nat)
  | grantDeletion (taskId : Identity)

def Operation.handle (prims : Primitives) (token : AuthenticatedToken) : Operation → Handler
  | .prepare request => Skydriver.prepare prims token request
  | .commit request => Skydriver.commit prims token request
  | .create request => Skydriver.create prims token request
  | .remove request => Skydriver.remove prims token request
  | .rename request => Skydriver.rename prims token request
  | .issue request => Skydriver.issue token request
  | .revoke request => Skydriver.revoke token request
  | .replaceAcl request => Skydriver.replaceAcl token request
  | .replacePlacements request => Skydriver.replacePlacements token request
  | .grantPutDriver intentId => Skydriver.grantPutDriver token intentId
  | .grantPutMultipart intentId uploadId => Skydriver.grantPutMultipart token intentId uploadId
  | .planDownload versionId leaseId => Skydriver.planDownload token versionId leaseId
  | .completeRead leaseId => Skydriver.completeRead token leaseId
  | .completeReads leaseIds => Skydriver.completeReads token leaseIds
  | .claimDeletion leaseSeconds => Skydriver.claimDeletion token leaseSeconds
  | .revalidateDeletion taskId incarnation fencingToken leaseSeconds =>
      Skydriver.revalidateDeletion token taskId incarnation fencingToken leaseSeconds
  | .completeDeletion taskId incarnation fencingToken =>
      Skydriver.completeDeletion token taskId incarnation fencingToken
  | .failDeletion taskId incarnation fencingToken => Skydriver.failDeletion token taskId incarnation fencingToken
  | .grantDeletion taskId => Skydriver.grantDeletion token taskId

/-- What starts a handler: a client with the digest of its bearer, or the schedule. -/
inductive Request where
  | client (verifierSha256 : Digest) (operation : Operation)
  | maintenance

/-- The program that a request starts. -/
def serve (prims : Primitives) : Request → Handler
  | .client verifierSha256 operation =>
      .read fun db =>
      match db.authenticate verifierSha256 with
      | none => reject 401 "VFS token authentication required"
      | some token => operation.handle prims token
  | .maintenance => maintain

/-- What other services may change between two steps: the clock, the tables they administer, and grants. -/
def Drift (before after : Database) : Prop :=
  ∃ surroundings grants aclRevisions, after = { before with
    surroundings
    authority := { before.authority with grants, aclRevisions } }

def controlPlane (prims : Primitives) : Machine Database Mutation Bool Effect Answer Response where
  execute := execute
  starts := fun program => ∃ request, program = serve prims request
  drift := Drift

/-- A state of the control plane: the database with its past, and the running handlers. -/
abbrev ControlState := System Database Mutation Bool Effect Answer Response

/-- A database right after its filesystems were bootstrapped: each has one empty root directory, every token is sealed
and has no parent, and nothing has been written yet. -/
structure Bootstrapped (prims : Primitives) (db : Database) : Prop where
  roots : ∀ id row, db.tree.directories.lookup id = some row →
    row.parentId = none ∧ row.state = .active ∧ directoryMerkleRoot prims [] = .ok row.dataRoot
  rootUnique : ∀ id other row row', db.tree.directories.lookup id = some row →
    db.tree.directories.lookup other = some row' → row.filesystemId = row'.filesystemId → id = other
  entries : db.tree.entries = ∅
  objects : db.objects = ⟨∅, ∅, ∅, ∅⟩
  journal : ∃ next, db.journal = ⟨∅, ∅, ∅, ∅, ∅, ∅, ∅, ∅, ∅, ∅, next, ∅⟩
  lifecycle : db.lifecycle = ⟨∅, ∅, ∅, ∅⟩
  tokens : ∀ id token, db.authority.tokens.lookup id = some token → token.parentTokenId = none ∧ token.sealedAt.isSome

/-- The runs of the control plane that start on `start` and in which only permitted batches commit. -/
def Reachable (prims : Primitives) (permit : Moment Database Mutation → Mutation → Prop) (start : Database)
    (system : ControlState) : Prop :=
  (controlPlane prims).Runs permit (Machine.initial start) system

/-- Runs without restriction on the batches that commit. -/
def anyBatch : Moment Database Mutation → Mutation → Prop := fun _ _ => True

/-! ### A sample filesystem

One principal holds every action on an empty root directory placed on one driver.  Concrete runs below start here. -/

namespace Sample

def prims : Primitives where
  sha256 := polynomialDigest
  isNfc := fun _ => true

def filesystemId : Identity := .ofByte 15 200
def principalId : Identity := .ofByte 15 201
def tokenId : Identity := .ofByte 15 202
def root : Identity := .ofByte 15 1
def bearer : Digest := .ofByte 31 1
def driverId : Text := [100]

/-- Identifiers drawn during a run. -/
def fresh (number : Nat) : Identity :=
  ⟨number.toUInt8 :: (1 + number / 256).toUInt8 :: List.replicate 14 0, by simp⟩

def emptyRoot : Digest :=
  match directoryMerkleRoot prims [] with
  | .ok digest => digest
  | .error _ => .zero 32

def rootRow : DirectoryRow := ⟨filesystemId, none, [], emptyRoot, .plaintext, 1, true, .active, 1⟩

def token : TokenRow := ⟨principalId, root, none, bearer, none, 1000000000, some 1, none, orderedActions, []⟩

def database : Database where
  tree := ⟨(∅ : Table Identity DirectoryRow).insert root rootRow, ∅⟩
  objects := ⟨∅, ∅, ∅, ∅⟩
  authority :=
    { tokens := (∅ : Table Identity TokenRow).insert tokenId token
      grants := (orderedActions.mapIdx fun index action => (index, action)).foldl (fun grants row =>
        grants.insert (fresh row.1) ⟨root, .principal principalId, row.2, none⟩) ∅
      aclRevisions := (∅ : Table Identity Nat).insert root 1
      placementRevisions := (∅ : Table Identity Nat).insert root 1
      directoryDrivers := (∅ : Table (Identity × Text) PlacementRow).insert (root, driverId) ⟨0, true⟩
      mounts := (∅ : Table Identity (Text × MountKind)).insert root (driverId, .default)
      keyEpochs := ∅ }
  journal := ⟨∅, ∅, ∅, ∅, ∅, ∅, ∅, ∅, ∅, ∅, 1, ∅⟩
  lifecycle := ⟨∅, ∅, ∅, ∅⟩
  surroundings :=
    { now := 100
      ties := fun _ => 0
      incarnation := .ofByte 15 203
      principals := (∅ : Table Identity RowState).insert principalId .active
      groups := ∅
      groupMembers := []
      drivers := (∅ : Table Text DriverRow).insert driverId ⟨some .r2V1, true, 1⟩
      directoryQuotas := ∅
      driverQuotas := ∅
      snapshotVersions := []
      gcBlockedFilesystems := [] }

/-- The idempotency key, and the storage key, of a request. -/
def key (number : Nat) : Text := [98 + (number / 16).toUInt8, 98 + (number % 16).toUInt8]

/-- Requests of the sample principal; `number` names the request and the identifiers drawn for it. -/
def createRequest (number : Nat) (parent : Identity) (name : Text) : Request :=
  .client bearer (.create ⟨parent, name, none, key number, .ofByte 31 number.toUInt8, fresh (10 * number),
    fresh (10 * number + 1)⟩)

def prepareRequest (number : Nat) (directory : Identity) (name : Text) (expectedRevision : Nat) : Request :=
  .client bearer (.prepare
    { directoryId := directory
      entryName := name
      expectedEntryRevision := expectedRevision
      plaintextBytes := 10
      verificationBlockBytes := 16
      verificationBlockCount := 1
      fileRoot := .ofByte 31 (number + 1).toUInt8
      metadataRoot := .ofByte 31 1
      blockManifestSha256 := .ofByte 31 1
      blockManifestBytes := 64
      encryptionFrameBytes := 16
      preferredDriverId := none
      idempotencyKey := key number
      requestSha256 := .ofByte 31 number.toUInt8
      intentId := fresh (10 * number)
      newFileId := fresh (10 * number + 1)
      versionId := fresh (10 * number + 2)
      locationId := fresh (10 * number + 3)
      storageKey := key number })

def commitRequest (number : Nat) : Request :=
  .client bearer (.commit ⟨fresh (10 * number),
    ⟨.ofByte 31 number.toUInt8, [118], 10, .ofByte 31 1, true, ⟨some [110], none, none⟩⟩⟩)

def removeRequest (number : Nat) (directory : Identity) (name : Text) (expectedRevision : Nat) : Request :=
  .client bearer (.remove ⟨directory, name, expectedRevision, key number, .ofByte 31 number.toUInt8,
    fresh (10 * number)⟩)

def renameRequest (number : Nat) (source : Identity) (sourceName : Text) (expectedRevision : Nat)
    (destination : Identity) (destinationName : Text) : Request :=
  .client bearer (.rename ⟨⟨source, sourceName, destination, destinationName⟩, expectedRevision,
    key number, .ofByte 31 number.toUInt8, fresh (10 * number)⟩)

/-- The next step of one handler, repeated. -/
def advances (index count : Nat) : List (Machine.Event Request Database Answer) :=
  List.replicate count (.advance index)

/-- One request carried through on its own; `index` is the number of requests before it. -/
def complete (index : Nat) (request : Request) : List (Machine.Event Request Database Answer) :=
  .request request :: advances index 24

/-- An upload prepared and committed, the bucket confirming its manifest. -/
def putAll (index number : Nat) (directory : Identity) (name : Text) (expectedRevision : Nat) :
    List (Machine.Event Request Database Answer) :=
  complete index (prepareRequest number directory name expectedRevision) ++
    .request (commitRequest number) :: advances (index + 1) 6 ++ .reply (index + 1) .done :: advances (index + 1) 14

/-- The clock moves on. -/
def wait (now : Nat) : Machine.Event Request Database Answer :=
  .become fun db => { db with surroundings := { db.surroundings with now } }

/-- Perform a schedule on the sample filesystem. -/
def run (events : List (Machine.Event Request Database Answer)) : ControlState :=
  (controlPlane prims).performAll (serve prims) (Machine.initial database) events

theorem reachable_run {permit : Moment Database Mutation → Mutation → Prop}
    {permitted : Moment Database Mutation → Mutation → Bool}
    (hpermitted : ∀ moment mutation, permitted moment mutation = true → permit moment mutation)
    (events : List (Machine.Event Request Database Answer))
    (hdrift : ∀ change, Machine.Event.become change ∈ events → ∀ db, Drift db (change db))
    (honly : (controlPlane prims).performsOnly (serve prims) permitted (Machine.initial database) events = true) :
    Reachable prims permit database (run events) := by
  apply Machine.runs_performAll
  · intro request
    exact ⟨request, rfl⟩
  · exact hpermitted
  · exact hdrift
  · exact honly
  · exact .refl

theorem run_append (events more : List (Machine.Event Request Database Answer)) :
    run (events ++ more) = (controlPlane prims).performAll (serve prims) (run events) more :=
  List.foldl_append

theorem before_run_append (events more : List (Machine.Event Request Database Answer)) :
    (run events).toMoment.Before (run (events ++ more)).toMoment := by
  rw [run_append]
  exact Machine.before_performAll _ more

theorem reachable_any_run (events : List (Machine.Event Request Database Answer))
    (hdrift : ∀ change, Machine.Event.become change ∈ events → ∀ db, Drift db (change db)) :
    Reachable prims anyBatch database (run events) := by
  apply reachable_run (fun _ _ _ => trivial) events hdrift
  exact Machine.performsOnly_of_forall (fun _ _ => rfl) _ _

/-- Without a restriction, every schedule is a run from the end of another one. -/
theorem runs_append (events more : List (Machine.Event Request Database Answer))
    (hdrift : ∀ change, Machine.Event.become change ∈ more → ∀ db, Drift db (change db)) :
    (controlPlane prims).Runs anyBatch (run events) (run (events ++ more)) := by
  rw [run_append]
  apply Machine.runs_performAll
  · intro request
    exact ⟨request, rfl⟩
  · exact fun _ _ _ => trivial
  · exact hdrift
  · exact Machine.performsOnly_of_forall (fun _ _ => rfl) _ _
  · exact .refl

/-- The database after requests served one after the other; the outside world agrees to everything. -/
def served : List Request → Database → Database
  | [], db => db
  | request :: requests, db =>
      match (serve prims request).runAlone execute (fun _ => .done) db with
      | (_, after) => served requests after

theorem reachable_served (requests : List Request) {system : ControlState}
    (hreach : Reachable prims anyBatch database system) :
    ∃ later, Reachable prims anyBatch database later ∧ later.state = served requests system.state := by
  induction requests generalizing system with
  | nil => exact ⟨system, hreach, rfl⟩
  | cons request requests ih =>
      have hstart := hreach.tail (.start ⟨request, rfl⟩)
      have hthread : (system.threads ++ [serve prims request])[system.threads.length]? = some (serve prims request) :=
        List.getElem?_concat_length
      obtain ⟨later, hlater, hstate⟩ := Machine.runs_runAlone (fun _ _ => trivial) (fun _ => .done) hthread hstart
      obtain ⟨last, hlast, heq⟩ := ih hlater
      refine ⟨last, hlast, ?_⟩
      rw [heq, hstate]
      rfl

theorem bootstrapped_database : Bootstrapped prims database where
  roots := by
    intro id row hrow
    rw [show database.tree.directories = (∅ : Table Identity DirectoryRow).insert root rootRow from rfl,
      Table.lookup_insert_eq] at hrow
    split_ifs at hrow
    · cases hrow
      exact ⟨rfl, rfl, by decide +kernel⟩
    · cases hrow
  rootUnique := by
    intro id other row row' hrow hrow' _
    rw [show database.tree.directories = (∅ : Table Identity DirectoryRow).insert root rootRow from rfl,
      Table.lookup_insert_eq] at hrow hrow'
    split_ifs at hrow hrow' with hid hother
    · rw [hid, hother]
    · cases hrow'
    · cases hrow
    · cases hrow
  entries := rfl
  objects := rfl
  journal := ⟨1, rfl⟩
  lifecycle := rfl
  tokens := by
    intro id found hfound
    rw [show database.authority.tokens = (∅ : Table Identity TokenRow).insert tokenId token from rfl,
      Table.lookup_insert_eq] at hfound
    split_ifs at hfound
    · cases hfound
      exact ⟨rfl, rfl⟩
    · cases hfound

end Sample

end Skydriver
