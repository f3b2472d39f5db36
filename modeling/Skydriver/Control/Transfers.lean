import Skydriver.Control.Handlers

/-!
# The transfer handlers

What clients do around the bytes themselves: obtain the driver of a prepared upload, read an object directly under a
lease, and delete an abandoned upload under a fence.  Credentials, and their renewal before a grant, are left out.
-/

namespace Skydriver

/-! ### Upload grants -/

/-- `load_context` and `grant_allowed`: a live intent of the caller whose driver the caller may still use. -/
def putGrantAllowed (db : Database) (token : AuthenticatedToken) (intent : PutIntentRow) : Bool :=
  intent.principalId == token.principalId && (intent.state == .prepared || intent.state == .committed) &&
    intent.expiresAt > db.now && db.putAuthorized token intent.directoryId intent.driverId

def loadGrantContext (db : Database) (intentId : Identity) : Option (PutIntentRow × DriverRow) := do
  let intent ← db.journal.putIntents.lookup intentId
  let driver ← db.surroundings.drivers.lookup intent.driverId
  some (intent, driver)

/-- `grant_put_driver`. -/
def grantPutDriver (token : AuthenticatedToken) (intentId : Identity) : Handler :=
  .read fun db =>
  match loadGrantContext db intentId with
  | none => reject 404 "VFS put intent was not found"
  | some (intent, driver) =>
  .read fun db =>
  check (putGrantAllowed db token intent) 403 "VFS driver grant is not authorized" <|
  match driver.kind with
  | none => .done (.failure "driver kind is not compiled into this release")
  | some kind =>
  check (!(kind.signedObject && intent.state != .prepared)) 409 "VFS Put is no longer uploadable" <|
  let granted := .done (.ok (.driverGrant intentId intent driver.revision (min intent.expiresAt token.expiresAt)))
  if kind.signedObject then
    .write (.uploadOpen intentId driver.revision) fun reply =>
    if reply.isNone then .done (.failure "signed-object cleanup task requires a live pinned Put") else granted
  else granted

/-- `grant_put_r2_multipart`. -/
def grantPutMultipart (token : AuthenticatedToken) (intentId : Identity) (uploadId : Text) : Handler :=
  .read fun db =>
  match loadGrantContext db intentId with
  | none => reject 404 "VFS put intent was not found"
  | some (intent, driver) =>
  .read fun db =>
  check (putGrantAllowed db token intent) 403 "VFS multipart grant is not authorized" <|
  check (intent.state == .prepared) 409 "VFS Put is no longer uploadable" <|
  match driver.kind with
  | none => .done (.failure "driver kind is not compiled into this release")
  | some kind =>
  check kind.signedObject 400 "VFS driver does not support R2 multipart grants" <|
  .write (.uploadBind intentId uploadId) fun bound =>
  if bound.isNone then .done (.failure "multipart upload identity is already bound")
  else
  check (bound == some true) 409 "R2 multipart upload identity conflict" <|
  .done (.ok (.driverGrant intentId intent driver.revision (min intent.expiresAt token.expiresAt)))

/-! ### Direct reads -/

/-- One row of `load`: the entry's directory and an available location on an enabled driver. -/
structure DownloadRow where
  authorizationDirectoryId : Identity
  locationId : Identity
  location : LocationRow
deriving DecidableEq

/-- The rows that `load` orders: a location placed on the directory's driver before any other, then by priority. -/
def downloadRows (db : Database) (versionId : Identity) : List (DownloadRow × Option Nat) :=
  match db.objects.versions.lookup versionId with
  | none => []
  | some version =>
      if version.state = .published ∧ (db.objects.files.lookup version.fileId).isSome ∧
          (db.objects.origins.lookup versionId).isSome then
        db.tree.entries.entries.flatMap fun entry =>
          match entry.2.content with
          | .directory _ _ => []
          | .file fileId found _ _ _ =>
              if fileId = version.fileId ∧ found = versionId then
                db.objects.locations.entries.filterMap fun row =>
                  if row.2.versionId = versionId ∧ row.2.state = .available ∧ db.driverEnabled row.2.driverId then
                    some (⟨entry.1.1, row.1, row.2⟩,
                      ((db.authority.directoryDrivers.lookup (entry.1.1, row.2.driverId)).filter
                        PlacementRow.active).map PlacementRow.writePriority)
                  else none
              else []
      else []

/-- The order of `load`. -/
def downloadBefore (left right : DownloadRow × Option Nat) : Bool :=
  match left.2, right.2 with
  | some _, none => true
  | none, some _ => false
  | none, none => left.1.locationId.val ≤ right.1.locationId.val
  | some first, some second => first < second || (first == second && left.1.locationId.val ≤ right.1.locationId.val)

/-- `load`. -/
def loadDownload (db : Database) (versionId : Identity) : Option DownloadRow :=
  ((downloadRows db versionId).insertionSort fun left right => downloadBefore left right).head?.map Prod.fst

/-- `vfs_download::plan`; `leaseId` is drawn at random. -/
def planDownload (token : AuthenticatedToken) (versionId leaseId : Identity) : Handler :=
  check (versionId ≠ .zero 16) 400 "invalid VFS version ID" <|
  .read fun db =>
  match loadDownload db versionId with
  | none => reject 404 "published VFS version was not found"
  | some row =>
  .read fun db =>
  check (db.authorized token row.authorizationDirectoryId .contentRead) 403 "VFS content-read authority required" <|
  .read fun db =>
  check (db.authorized token row.authorizationDirectoryId .contentRead) 403 "VFS content-read authority required" <|
  .read fun clock =>
  .write (.leaseGrant ⟨leaseId, versionId, row.locationId, token.id, token.expiresAt, clock.now⟩) fun leased =>
  if leased.isNone then .done (.failure "VFS read lease was not recorded")
  else
  check (leased == some true) 409 "download location changed concurrently" <|
  .done (.ok (.download leaseId row.locationId row.location token.expiresAt))

/-- `vfs_download::complete`. -/
def completeRead (token : AuthenticatedToken) (leaseId : Identity) : Handler :=
  check (leaseId ≠ .zero 16) 400 "invalid VFS read lease ID" <|
  .read fun clock =>
  .write (.leaseComplete token.id [leaseId] clock.now) fun completed =>
  if completed.isNone then .done (.failure "VFS read lease was not completed")
  else
  check (completed == some true) 404 "VFS read lease was not found" <|
  .done (.ok (.leasesCompleted [leaseId] clock.now))

def maximumCompletionBatchItems : Nat := 64

/-- `vfs_download::complete_batch`. -/
def completeReads (token : AuthenticatedToken) (leaseIds : List Identity) : Handler :=
  check (!leaseIds.isEmpty && leaseIds.length ≤ maximumCompletionBatchItems && leaseIds.all (· ≠ .zero 16)) 400
    "invalid read-lease completion batch" <|
  check leaseIds.Nodup 400 "duplicate VFS read lease ID" <|
  .read fun db =>
  check (leaseIds.all fun id => (db.lifecycle.readLeases.lookup id).any fun lease => lease.tokenId == token.id) 404
    "one or more VFS read leases were not found" <|
  .read fun clock =>
  .write (.leaseComplete token.id leaseIds clock.now) fun completed =>
  if completed.isNone then .done (.failure "VFS read leases were not completed")
  else .done (.ok (.leasesCompleted leaseIds clock.now))

/-! ### Abandoned uploads -/

/-- `vfs_put_deletion::authorized`: the token may run collection and use the driver where the upload was meant to go.
The directories below the token's root are those with the root above them, so the candidate query asks the same. -/
def deletionAuthorized (db : Database) (token : AuthenticatedToken) (taskId : Identity) : Bool :=
  match db.lifecycle.putTasks.lookup taskId, db.journal.putIntents.lookup taskId,
      db.authority.tokens.lookup token.id with
  | some _, some intent, some verifier =>
      verifier.principalId == token.principalId && verifier.snapshotId.isNone &&
        (db.tree.ancestors intent.directoryId).contains verifier.rootDirectoryId &&
        verifier.actions.contains .gcRun && verifier.actions.contains .driverUse &&
        verifier.allowsDriver intent.driverId && db.granted intent.directoryId verifier.principalId .gcRun &&
        db.granted intent.directoryId verifier.principalId .driverUse
  | _, _, _ => false

/-- `load_task`. -/
def loadDeletion (db : Database) (taskId : Identity) : Option (Identity × PutDeleteTaskRow × PutIntentRow) :=
  match db.lifecycle.putTasks.lookup taskId, db.journal.putIntents.lookup taskId,
      db.journal.uploadEvidence.lookup taskId with
  | some task, some intent, some _ => some (taskId, task, intent)
  | _, _, _ => none

/-- The first query of `load_owned_task`, ordered by `updated_at`. -/
def ownedDeletion (db : Database) (token : AuthenticatedToken) (taskId : Option Identity) (now : Nat) :
    Option Identity :=
  (oldestFirst db.surroundings.ties 1 (db.lifecycle.putTasks.entries.filterMap fun row =>
    if row.2.state = .claimed ∧ row.2.ownerTokenId = some token.id ∧ row.2.leaseExpiresAt.any (· > now) ∧
        taskId.all (· == row.1) ∧ row.2.incarnation = some db.surroundings.incarnation then some (0, row.1)
    else none)).head?

/-- `load_candidate`, ordered by the time a task is due and then by `updated_at`. -/
def deletionCandidate (db : Database) (token : AuthenticatedToken) (now : Nat) : Option Identity :=
  (oldestFirst db.surroundings.ties 1 (db.lifecycle.putTasks.entries.filterMap fun row =>
    if putTaskSafe db row.1 ∧ putTaskClaimable db row.2 now ∧ deletionAuthorized db token row.1 then
      some (row.2.retryAt.getD row.2.deleteAfter, row.1)
    else none)).head?

/-- `load_owned_task`, with what follows. -/
def loadOwnedDeletion (token : AuthenticatedToken) (taskId : Option Identity) (now : Nat)
    (next : Option (Identity × PutDeleteTaskRow × PutIntentRow) → Handler) : Handler :=
  .read fun db =>
  match ownedDeletion db token taskId now with
  | none => next none
  | some found =>
  .read fun db =>
  if deletionAuthorized db token found then .read fun db => next (loadDeletion db found) else next none

def defaultLeaseSeconds : Nat := 60
def minimumLeaseSeconds : Nat := 15
def maximumLeaseSeconds : Nat := 300

/-- `valid_lease_seconds`. -/
def validLeaseSeconds (seconds : Nat) : Bool := minimumLeaseSeconds ≤ seconds && seconds ≤ maximumLeaseSeconds

/-- `vfs_put_deletion::claim`. -/
def claimDeletion (token : AuthenticatedToken) (leaseSeconds : Option Nat) : Handler :=
  let seconds := leaseSeconds.getD defaultLeaseSeconds
  check (validLeaseSeconds seconds) 400 "VFS put-delete lease duration is out of range" <|
  .read fun clock =>
  loadOwnedDeletion token none clock.now fun owned =>
  match owned with
  | some task => .done (.ok (.deletion (some task)))
  | none =>
  .read fun db =>
  match deletionCandidate db token clock.now with
  | none => .done (.ok (.deletion none))
  | some taskId =>
  .write (.clientClaim token.id taskId (clock.now + seconds) clock.now) fun claimed =>
  check (claimed == some true) 409 "VFS put-delete task became unsafe while claiming" <|
  loadOwnedDeletion token (some taskId) clock.now fun task =>
  match task with
  | none => reject 409 "VFS put-delete task was claimed concurrently"
  | some task => .done (.ok (.deletion (some task)))

/-- `vfs_put_deletion::revalidate`. -/
def revalidateDeletion (token : AuthenticatedToken) (taskId incarnation : Identity) (fencingToken : Nat)
    (leaseSeconds : Option Nat) : Handler :=
  let seconds := leaseSeconds.getD defaultLeaseSeconds
  check (fencingToken != 0 && validLeaseSeconds seconds) 400 "invalid VFS put-delete revalidation" <|
  .read fun clock =>
  .read fun db =>
  check (deletionAuthorized db token taskId) 403 "VFS put-delete revalidation is not authorized" <|
  .write (.clientRevalidate ⟨taskId, token.id, incarnation, fencingToken⟩ (clock.now + seconds) clock.now)
    fun rotated =>
  check (rotated == some true) 409 "VFS put-delete task failed final safety validation" <|
  loadOwnedDeletion token (some taskId) clock.now fun task =>
  match task with
  | none => reject 409 "VFS put-delete task fence is stale"
  | some task =>
  check (task.2.1.fencingToken == fencingToken + 1) 409 "VFS put-delete task fence is stale" <|
  .done (.ok (.deletion (some task)))

/-- `vfs_put_deletion::complete`; the outcomes `deleted` and `already_absent` are not told apart here. -/
def completeDeletion (token : AuthenticatedToken) (taskId incarnation : Identity) (fencingToken : Nat) : Handler :=
  check (fencingToken != 0) 400 "invalid VFS put-delete completion" <|
  .read fun db =>
  check (deletionAuthorized db token taskId) 403 "VFS put-delete completion is not authorized" <|
  .read fun db =>
  match (loadDeletion db taskId).filter fun task => task.2.1.state == .deleted with
  | some terminal => .done (.ok (.deletion (some terminal)))
  | none =>
  .read fun clock =>
  .write (.clientComplete ⟨taskId, token.id, incarnation, fencingToken⟩ clock.now) fun completed =>
  check (completed == some true) 409 "VFS put-delete completion fence is stale" <|
  .read fun db =>
  match loadDeletion db taskId with
  | none => reject 409 "VFS put-delete task disappeared"
  | some task =>
  check (task.2.1.state == .deleted) 409 "VFS put-delete completion did not commit" <|
  .done (.ok (.deletion (some task)))

/-- `vfs_put_deletion::fail`. -/
def failDeletion (token : AuthenticatedToken) (taskId incarnation : Identity) (fencingToken : Nat) : Handler :=
  check (fencingToken != 0) 400 "invalid VFS put-delete failure" <|
  .read fun db =>
  check (deletionAuthorized db token taskId) 403 "VFS put-delete failure is not authorized" <|
  .read fun clock =>
  .write (.clientFail ⟨taskId, token.id, incarnation, fencingToken⟩
    (clock.now + retryDelay fencingToken fencingToken)) fun failed =>
  check (failed == some true) 409 "VFS put-delete failure fence is stale" <|
  .read fun db =>
  match loadDeletion db taskId with
  | none => reject 409 "VFS put-delete task disappeared"
  | some task => .done (.ok (.deletion (some task)))

/-- `grant_put_delete_driver`: the storage key that a client may delete under its fence. -/
def grantDeletion (token : AuthenticatedToken) (taskId : Identity) : Handler :=
  .read fun db =>
  check (deletionAuthorized db token taskId) 403 "VFS put-delete driver grant is not authorized" <|
  .read fun db =>
  match (loadDeletion db taskId).filter fun found =>
      found.2.1.state == .claimed && found.2.1.ownerTokenId == some token.id &&
        found.2.1.leaseExpiresAt.any (· > db.now) && found.2.1.incarnation == some db.surroundings.incarnation &&
        putTaskSafe db taskId with
  | none => reject 409 "VFS put-delete task has no current safe fence"
  | some found => .done (.ok (.deletion (some found)))

end Skydriver
