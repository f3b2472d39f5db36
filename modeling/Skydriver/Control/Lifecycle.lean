import Skydriver.Control.Policy

/-!
# The statements of maintenance and server lifecycle

Expiry of put intents, marking of unreachable locations, and the claim, completion and failure of deletion tasks.  A
statement that changed exactly one row answers `true`, which is what the lifecycle pass tests before it goes on.
-/

namespace Skydriver

def maximumMarksPerRun : Nat := 100
def maximumTasksPerRun : Nat := 100
def maximumExpiredPutsPerRun : Nat := 250
def unreachableRetentionSeconds : Nat := 30 * 86400
def deleteGraceSeconds : Nat := 7 * 86400
def putDeleteGraceSeconds : Nat := 86400
def claimSeconds : Nat := 120
def maximumExpiredReadLeasesPerRun : Nat := 1000
def maximumUploadEvidencePerRun : Nat := 250
def readLeaseEvidenceSeconds : Nat := 7 * 86400
def uploadEvidenceSeconds : Nat := 30 * 86400

/-- `ORDER BY time, id LIMIT limit`. -/
def firstByTime (limit : Nat) (candidates : List (Nat × Identity)) : List Identity :=
  ((candidates.insertionSort fun left right =>
    left.1 < right.1 ∨ (left.1 = right.1 ∧ left.2.val ≤ right.2.val)).take limit).map Prod.snd

/-- `ORDER BY time LIMIT limit`: rows of one time come as `ties` has them.  Where the statement goes on to order by a column
that the rows leave out, `ties` stands for that column too. -/
def oldestFirst (ties : Identity → Nat) (limit : Nat) (candidates : List (Nat × Identity)) : List Identity :=
  ((candidates.insertionSort fun left right =>
    left.1 < right.1 ∨ (left.1 = right.1 ∧ ties left.2 ≤ ties right.2)).take limit).map Prod.snd

/-- `retry_delay`. -/
def retryDelay (attempt fence : Nat) : Nat := min (60 * 2 ^ min (attempt - 1) 8) (6 * 60 * 60) + fence % 61

/-! ### Put intents -/

/-- The maintenance batch: expire overdue intents, open a delete task for each expired upload with evidence, and forget
direct reads that ended long ago. -/
def executeMaintenance (now : Nat) (db : Database) : Option Database :=
  let overdue := oldestFirst db.surroundings.ties maximumExpiredPutsPerRun
    (db.journal.putIntents.entries.filterMap fun row =>
      if row.2.state = .prepared ∧ row.2.expiresAt ≤ now then some (row.2.expiresAt, row.1) else none)
  let intents := db.journal.putIntents.mapRows fun id intent =>
    if overdue.contains id then { intent with state := .expired, revision := intent.revision + 1 } else intent
  let expired := oldestFirst db.surroundings.ties maximumExpiredPutsPerRun
    (intents.entries.filterMap fun row =>
      if (row.2.state = .expired ∨ row.2.state = .abandoned) ∧ (db.journal.uploadEvidence.lookup row.1).isSome ∧
          (db.journal.putReceipts.lookup row.1).isNone then some (row.2.expiresAt, row.1) else none)
  let putTasks := expired.foldl (fun tasks id =>
    match tasks.lookup id, intents.lookup id, db.journal.uploadEvidence.lookup id with
    | none, some intent, some evidence =>
        match db.surroundings.drivers.lookup intent.driverId with
        | some driver =>
            tasks.insert id
              ⟨driver.revision, evidence.proof.commitSha256, max intent.expiresAt evidence.verifiedAt +
                putDeleteGraceSeconds, .pending, none, none, 0, none, none, none, none⟩
        | none => tasks
    | _, _, _ => tasks) db.lifecycle.putTasks
  let ended := firstByTime maximumExpiredReadLeasesPerRun
    (db.lifecycle.readLeases.entries.filterMap fun row =>
      let endedAt := row.2.completedAt.getD row.2.expiresAt
      if endedAt ≤ now - readLeaseEvidenceSeconds then some (endedAt, row.1) else none)
  some { db with
    journal := { db.journal with putIntents := intents }
    lifecycle := { db.lifecycle with
      putTasks
      readLeases := ended.foldl (fun leases id => leases.erase id) db.lifecycle.readLeases } }

/-- View `safe_vfs_put_delete_tasks`. -/
def putTaskSafe (db : Database) (id : Identity) : Bool :=
  match db.lifecycle.putTasks.lookup id, db.journal.putIntents.lookup id, db.journal.uploadEvidence.lookup id with
  | some task, some intent, some evidence =>
      (task.state == .pending || task.state == .claimed || task.state == .failed) && task.deleteAfter ≤ db.now &&
        (intent.state == .expired || intent.state == .abandoned) &&
        evidence.proof.commitSha256 == task.evidenceSha256 &&
        ((db.surroundings.drivers.lookup intent.driverId).any fun driver =>
          driver.enabled && driver.revision == task.driverRevision) &&
        (db.journal.putReceipts.lookup id).isNone &&
        !(db.objects.locations.any fun _ location =>
          location.driverId == intent.driverId && location.storageKey == intent.storageKey &&
            location.state != .deleted)
  | _, _, _ => false

def putTaskDue (task : PutDeleteTaskRow) (now : Nat) : Bool :=
  task.serverBlockedAt.isNone &&
    ((task.state == .pending && task.deleteAfter ≤ now) || (task.state == .failed && task.retryAt.any (· ≤ now)) ||
      (task.state == .claimed && task.leaseExpiresAt.any (· ≤ now)))

/-- The claim of `delete_one_abandoned_put`. -/
def executePutClaim (id : Identity) (now : Nat) (db : Database) : Option (Database × Bool) :=
  match db.lifecycle.putTasks.lookup id with
  | some task =>
      if putTaskSafe db id ∧ putTaskDue task now then
        some ({ db with
          lifecycle := { db.lifecycle with
            putTasks := db.lifecycle.putTasks.insert id
              { task with
                state := .claimed
                ownerTokenId := (db.journal.uploadEvidence.lookup id).map EvidenceRow.tokenId
                incarnation := some db.surroundings.incarnation
                fencingToken := task.fencingToken + 1
                leaseExpiresAt := some (now + claimSeconds)
                retryAt := none
                revalidatedAt := some now } } }, true)
      else some (db, false)
  | none => some (db, false)

/-- `complete_abandoned_put`, and `fail_abandoned_put` with its retry time or block. -/
inductive PutTaskOutcome where
  | deleted
  | retry (retryAt : Nat)
  | blocked
deriving DecidableEq

def executePutFinish (id : Identity) (fencingToken : Nat) (outcome : PutTaskOutcome) (now : Nat) (db : Database) :
    Option (Database × Bool) :=
  match db.lifecycle.putTasks.lookup id with
  | some task =>
      if task.state = .claimed ∧ task.fencingToken = fencingToken ∧ (outcome = .deleted → putTaskSafe db id) then
        some ({ db with
          lifecycle := { db.lifecycle with
            putTasks := db.lifecycle.putTasks.insert id
              (match outcome with
              | .deleted =>
                  { task with
                    state := .deleted
                    ownerTokenId := none
                    incarnation := none
                    leaseExpiresAt := none
                    retryAt := none }
              | .retry retryAt =>
                  { task with
                    state := .failed
                    ownerTokenId := none
                    incarnation := none
                    leaseExpiresAt := none
                    retryAt := some retryAt
                    serverBlockedAt := none }
              | .blocked =>
                  { task with
                    state := .failed
                    ownerTokenId := none
                    incarnation := none
                    leaseExpiresAt := none
                    retryAt := none
                    serverBlockedAt := some now }) } }, true)
      else some (db, false)
  | none => some (db, false)

/-! ### Put tasks in the hands of clients -/

/-- The fence a client presents: the task, its own token, and the incarnation and fencing token it was given. -/
structure DeletionFence where
  taskId : Identity
  tokenId : Identity
  incarnation : Identity
  fencingToken : Nat
deriving DecidableEq

/-- A put delete task that a client may take over. -/
def putTaskClaimable (db : Database) (task : PutDeleteTaskRow) (now : Nat) : Bool :=
  task.serverBlockedAt.isNone &&
    (task.state == .pending || (task.state == .failed && task.retryAt.any (· ≤ now)) ||
      (task.state == .claimed && (task.leaseExpiresAt.any (· ≤ now) ||
        task.incarnation.any (· != db.surroundings.incarnation))))

def DeletionFence.holds (fence : DeletionFence) (task : PutDeleteTaskRow) : Bool :=
  task.state == .claimed && task.ownerTokenId == some fence.tokenId && task.incarnation == some fence.incarnation &&
    task.fencingToken == fence.fencingToken

/-- Change a put delete task if the condition holds of it; the reply says whether it did. -/
def updatePutTask (db : Database) (id : Identity) (condition : PutDeleteTaskRow → Bool)
    (change : PutDeleteTaskRow → PutDeleteTaskRow) : Option (Database × Bool) :=
  match db.lifecycle.putTasks.lookup id with
  | some task =>
      if condition task then
        some ({ db with
          lifecycle := { db.lifecycle with putTasks := db.lifecycle.putTasks.insert id (change task) } }, true)
      else some (db, false)
  | none => some (db, false)

/-- The claim of `vfs_put_deletion::claim`. -/
def executeClientClaim (tokenId id : Identity) (leaseExpiresAt now : Nat) (db : Database) : Option (Database × Bool) :=
  updatePutTask db id (fun task => putTaskClaimable db task now && putTaskSafe db id) fun task =>
    { task with
      state := .claimed
      ownerTokenId := some tokenId
      incarnation := some db.surroundings.incarnation
      fencingToken := task.fencingToken + 1
      leaseExpiresAt := some leaseExpiresAt
      retryAt := none
      revalidatedAt := none }

/-- The rotation of `vfs_put_deletion::revalidate`. -/
def executeClientRevalidate (fence : DeletionFence) (leaseExpiresAt now : Nat) (db : Database) :
    Option (Database × Bool) :=
  updatePutTask db fence.taskId
    (fun task => fence.holds task && task.leaseExpiresAt.any (· > now) && putTaskSafe db fence.taskId) fun task =>
      { task with
        fencingToken := task.fencingToken + 1
        leaseExpiresAt := some leaseExpiresAt
        revalidatedAt := some now }

/-- The completion of `vfs_put_deletion::complete`. -/
def executeClientComplete (fence : DeletionFence) (now : Nat) (db : Database) : Option (Database × Bool) :=
  updatePutTask db fence.taskId
    (fun task => fence.holds task && task.leaseExpiresAt.any (· > now) && task.revalidatedAt.isSome &&
      putTaskSafe db fence.taskId) fun task =>
      { task with state := .deleted, ownerTokenId := none, incarnation := none, leaseExpiresAt := none, retryAt := none }

/-- The release of `vfs_put_deletion::fail`. -/
def executeClientFail (fence : DeletionFence) (retryAt : Nat) (db : Database) : Option (Database × Bool) :=
  updatePutTask db fence.taskId (fun task => fence.holds task) fun task =>
    { task with
      state := .failed
      ownerTokenId := none
      incarnation := none
      leaseExpiresAt := none
      retryAt := some retryAt
      revalidatedAt := none }

/-! ### Upload cleanup tasks -/

def pinnedDriver (db : Database) (intent : PutIntentRow) (driverRevision : Nat) : Bool :=
  (db.surroundings.drivers.lookup intent.driverId).any fun driver =>
    driver.kind.any DriverKind.signedObject && driver.enabled && driver.revision == driverRevision

/-- `INSERT INTO vfs_r2_upload_cleanup_tasks … ON CONFLICT(intent_id) DO NOTHING`, whose trigger wants a live intent. -/
def executeUploadOpen (intentId : Identity) (driverRevision : Nat) (db : Database) : Option Database := do
  let intent ← db.journal.putIntents.lookup intentId
  require (intent.state == .prepared && intent.expiresAt > db.now && pinnedDriver db intent driverRevision)
  if (db.lifecycle.uploadTasks.lookup intentId).isSome then some db
  else
    some { db with
      lifecycle := { db.lifecycle with
        uploadTasks := db.lifecycle.uploadTasks.insert intentId ⟨driverRevision, none, .active, 0, none, none, none⟩ } }

/-- The binding of a multipart upload; upload identifiers are unique. -/
def executeUploadBind (intentId : Identity) (uploadId : Text) (db : Database) : Option (Database × Bool) :=
  match db.lifecycle.uploadTasks.lookup intentId with
  | some task =>
      if task.state = .active ∧ (task.uploadId.all (· == uploadId)) then
        if db.lifecycle.uploadTasks.any fun id other => id != intentId && other.uploadId == some uploadId then none
        else
          some ({ db with
            lifecycle := { db.lifecycle with
              uploadTasks := db.lifecycle.uploadTasks.insert intentId { task with uploadId := some uploadId } } }, true)
      else some (db, false)
  | none => some (db, false)

/-- View `safe_vfs_r2_upload_cleanup_tasks`. -/
def uploadTaskSafe (db : Database) (id : Identity) : Bool :=
  match db.lifecycle.uploadTasks.lookup id, db.journal.putIntents.lookup id with
  | some task, some intent =>
      (task.state == .active || task.state == .cleaning || task.state == .failed) &&
        (intent.state == .expired || intent.state == .abandoned) && pinnedDriver db intent task.driverRevision &&
        (db.journal.putReceipts.lookup id).isNone &&
        !(db.objects.locations.any fun _ location =>
          location.driverId == intent.driverId && location.storageKey == intent.storageKey &&
            location.state != .deleted)
  | _, _ => false

def uploadTaskDue (task : UploadCleanupTaskRow) (now : Nat) : Bool :=
  task.state == .active || (task.state == .failed && task.retryAt.any (· ≤ now)) ||
    (task.state == .cleaning && task.leaseExpiresAt.any (· ≤ now))

/-- The claim of `cleanup_one_r2_upload`. -/
def executeUploadClaim (id : Identity) (now : Nat) (db : Database) : Option (Database × Bool) :=
  match db.lifecycle.uploadTasks.lookup id with
  | some task =>
      if uploadTaskSafe db id ∧ uploadTaskDue task now then
        some ({ db with
          lifecycle := { db.lifecycle with
            uploadTasks := db.lifecycle.uploadTasks.insert id
              { task with
                state := .cleaning
                fencingToken := task.fencingToken + 1
                leaseExpiresAt := some (now + claimSeconds)
                retryAt := none } } }, true)
      else some (db, false)
  | none => some (db, false)

/-- The upload of a claimed task that is still safe to clean up. -/
def loadUploadCleanup (db : Database) (id : Identity) (now : Nat) :
    Option (UploadCleanupTaskRow × PutIntentRow × DriverRow) := do
  let task ← db.lifecycle.uploadTasks.lookup id
  let intent ← db.journal.putIntents.lookup id
  let driver ← db.surroundings.drivers.lookup intent.driverId
  require (task.state == .cleaning && task.leaseExpiresAt.any (· > now) && uploadTaskSafe db id)
  some (task, intent, driver)

/-- The fenced outcome of `cleanup_one_r2_upload`: a retry time, or cleaned. -/
def executeUploadFinish (id : Identity) (fencingToken : Nat) (retryAt : Option Nat) (now : Nat) (db : Database) :
    Option (Database × Bool) :=
  match db.lifecycle.uploadTasks.lookup id with
  | some task =>
      if task.state = .cleaning ∧ task.fencingToken = fencingToken then
        some ({ db with
          lifecycle := { db.lifecycle with
            uploadTasks := db.lifecycle.uploadTasks.insert id
              { task with
                state := if retryAt.isSome then .failed else .cleaned
                leaseExpiresAt := none
                retryAt := retryAt
                completedAt := if retryAt.isSome then none else some now } } }, true)
      else some (db, false)
  | none => some (db, false)

/-- `delete_expired_r2_cleanup_evidence`. -/
def executeUploadPrune (now : Nat) (db : Database) : Option Database :=
  let ended := firstByTime maximumUploadEvidencePerRun
    (db.lifecycle.uploadTasks.entries.filterMap fun row =>
      row.2.completedAt.bind fun completedAt =>
        if (row.2.state = .cleaned ∨ row.2.state = .superseded) ∧ completedAt ≤ now - uploadEvidenceSeconds then
          some (completedAt, row.1)
        else none)
  some { db with
    lifecycle := { db.lifecycle with
      uploadTasks := ended.foldl (fun tasks id => tasks.erase id) db.lifecycle.uploadTasks } }

/-! ### Direct reads -/

/-- One direct read to be granted; `leaseId` is drawn by the handler. -/
structure LeaseGrant where
  leaseId : Identity
  versionId : Identity
  locationId : Identity
  tokenId : Identity
  expiresAt : Nat
  now : Nat
deriving DecidableEq

/-- `INSERT INTO vfs_read_leases … SELECT`: a lease on an available location of a published version, or nothing. -/
def executeLeaseGrant (grant : LeaseGrant) (db : Database) : Option (Database × Bool) :=
  match db.objects.versions.lookup grant.versionId, db.objects.locations.lookup grant.locationId with
  | some version, some location =>
      if version.state = .published ∧ location.versionId = grant.versionId ∧ location.state = .available then
        if (db.lifecycle.readLeases.lookup grant.leaseId).isNone ∧ grant.now < grant.expiresAt ∧ 0 < grant.now then
          some ({ db with
            lifecycle := { db.lifecycle with
              readLeases := db.lifecycle.readLeases.insert grant.leaseId
                ⟨grant.versionId, grant.locationId, grant.tokenId, grant.expiresAt, grant.now, none⟩ } }, true)
        else none
      else some (db, false)
  | _, _ => some (db, false)

/-- The update of `complete`, and each update of `complete_batch`. -/
def completeLease (tokenId : Identity) (now : Nat) (leases : Table Identity ReadLeaseRow) (leaseId : Identity) :
    Table Identity ReadLeaseRow :=
  leases.modify leaseId fun lease =>
    if lease.tokenId = tokenId then { lease with completedAt := some (lease.completedAt.getD now) } else lease

/-- The batch of `complete_batch`; the reply says whether its only lease was found.  A completion before the creation
breaks a column check. -/
def executeLeaseComplete (tokenId : Identity) (leaseIds : List Identity) (now : Nat) (db : Database) :
    Option (Database × Bool) := do
  let owned := leaseIds.filter fun id =>
    (db.lifecycle.readLeases.lookup id).any fun lease => lease.tokenId == tokenId
  require (owned.all fun id => (db.lifecycle.readLeases.lookup id).all fun lease =>
    lease.completedAt.isSome || lease.createdAt ≤ now)
  some ({ db with
    lifecycle := { db.lifecycle with
      readLeases := leaseIds.foldl (completeLease tokenId now) db.lifecycle.readLeases } }, !owned.isEmpty)

/-! ### Locations -/

/-- View `safe_unreachable_vfs_locations`: the publication time of the location's version, if nothing reaches it. -/
def unreachableSince (db : Database) (location : LocationRow) : Option Nat := do
  let version ← db.objects.versions.lookup location.versionId
  let file ← db.objects.files.lookup version.fileId
  require (location.state == .available && version.state == .published && db.driverEnabled location.driverId)
  require (db.objects.origins.lookup location.versionId).isSome
  require (location.provider.nativeId.isSome || location.provider.providerVersion.isSome ||
    location.provider.etag.isSome)
  require !(db.surroundings.gcBlockedFilesystems.contains file.filesystemId)
  require !(db.objects.files.any fun _ current => current.currentVersionId == some location.versionId)
  require !(db.tree.entries.any fun _ entry =>
    match entry.content with
    | .file _ versionId _ _ _ => versionId == location.versionId
    | .directory _ _ => false)
  require !(db.surroundings.snapshotVersions.contains location.versionId)
  version.publishedAt

/-- `mark_unreachable`. -/
def executeMarkUnreachable (now : Nat) (db : Database) : Option Database :=
  let marked := firstByTime maximumMarksPerRun
    (db.objects.locations.entries.filterMap fun row =>
      (unreachableSince db row.2).bind fun publishedAt =>
        if publishedAt ≤ now - unreachableRetentionSeconds then some (publishedAt, row.1) else none)
  some { db with
    objects := { db.objects with
      locations := db.objects.locations.mapRows fun id location =>
        if marked.contains id ∧ location.state = .available then
          { location with
            state := .tombstoned
            deleteAfter := some (now + deleteGraceSeconds)
            revision := location.revision + 1 }
        else location }
    lifecycle := db.lifecycle.supersede db.journal.putIntents fun driverId storageKey =>
      db.objects.locations.any fun id location =>
        marked.contains id && location.driverId == driverId && location.storageKey == storageKey }

/-- `create_tasks`. -/
def executeCreateTasks (db : Database) : Option Database :=
  let fresh := firstByTime maximumTasksPerRun
    (db.objects.locations.entries.filterMap fun row =>
      if row.2.state = .tombstoned ∧ (db.lifecycle.locationTasks.lookup row.1).isNone then
        row.2.deleteAfter.map fun deleteAfter => (deleteAfter, row.1)
      else none)
  some { db with
    lifecycle := { db.lifecycle with
      locationTasks := fresh.foldl (fun tasks id =>
        match db.objects.locations.lookup id with
        | some location =>
            match db.surroundings.drivers.lookup location.driverId, location.deleteAfter with
            | some driver, some deleteAfter =>
                tasks.insert id
                  ⟨location.revision, location.driverId, driver.revision, location.storageKey, location.provider,
                    location.sizeBytes, deleteAfter, .pending, 0, none, none⟩
            | _, _ => tasks
        | none => tasks) db.lifecycle.locationTasks } }

def locationTaskDue (task : LocationDeleteTaskRow) (now : Nat) : Bool :=
  (task.state == .pending && task.deleteAfter ≤ now) || (task.state == .retry && task.retryAt.any (· ≤ now)) ||
    (task.state == .claimed && task.leaseExpiresAt.any (· ≤ now))

/-- The claim of `delete_one`. -/
def executeLocationClaim (id : Identity) (now : Nat) (db : Database) : Option (Database × Bool) :=
  match db.lifecycle.locationTasks.lookup id with
  | some task =>
      if locationTaskDue task now then
        some ({ db with
          lifecycle := { db.lifecycle with
            locationTasks := db.lifecycle.locationTasks.insert id
              { task with
                state := .claimed
                fencingToken := task.fencingToken + 1
                leaseExpiresAt := some (now + claimSeconds)
                retryAt := none } } }, true)
      else some (db, false)
  | none => some (db, false)

/-- An unfinished direct read of the location. -/
def activeLease (db : Database) (locationId : Identity) (now : Nat) : Bool :=
  db.lifecycle.readLeases.any fun _ lease =>
    lease.locationId == locationId && lease.completedAt.isNone && lease.expiresAt > now

/-- `complete`: the location becomes deleted, then the task, each only under its fence. -/
def executeLocationComplete (id : Identity) (expectedRevision fencingToken now : Nat) (db : Database) :
    Option (Database × Bool) :=
  match db.lifecycle.locationTasks.lookup id, db.objects.locations.lookup id with
  | some task, some location =>
      let deletes := location.state = .tombstoned ∧ location.revision = expectedRevision ∧ task.state = .claimed ∧
        task.fencingToken = fencingToken ∧ task.leaseExpiresAt.any (· > now) ∧
        task.expectedLocationRevision = expectedRevision ∧ activeLease db id now = false
      let locations :=
        if deletes then
          db.objects.locations.insert id { location with state := .deleted, revision := location.revision + 1 }
        else db.objects.locations
      let finished := task.state = .claimed ∧ task.fencingToken = fencingToken ∧
        (locations.lookup id).any fun row =>
          row.state == .deleted && row.revision == task.expectedLocationRevision + 1
      some ({ db with
        objects := { db.objects with locations }
        lifecycle := { db.lifecycle with
          locationTasks :=
            if finished then
              db.lifecycle.locationTasks.insert id { task with state := .deleted, leaseExpiresAt := none }
            else db.lifecycle.locationTasks } }, decide deletes && decide finished)
  | _, _ => some (db, false)

/-- `fail`, with the retry time or blocked. -/
def executeLocationFail (id : Identity) (fencingToken : Nat) (retryAt : Option Nat) (db : Database) :
    Option (Database × Bool) :=
  match db.lifecycle.locationTasks.lookup id with
  | some task =>
      if task.state = .claimed ∧ task.fencingToken = fencingToken then
        some ({ db with
          lifecycle := { db.lifecycle with
            locationTasks := db.lifecycle.locationTasks.insert id
              { task with
                state := if retryAt.isSome then .retry else .blocked
                leaseExpiresAt := none
                retryAt := retryAt } } }, true)
      else some (db, false)
  | none => some (db, false)

/-- `load_revalidated`: the task, if the location is still exactly what the task was opened for. -/
def loadRevalidated (db : Database) (id : Identity) (now : Nat) : Option (LocationDeleteTaskRow × DriverRow) := do
  let task ← db.lifecycle.locationTasks.lookup id
  let location ← db.objects.locations.lookup id
  let driver ← db.surroundings.drivers.lookup task.driverId
  require (task.state == .claimed && task.leaseExpiresAt.any (· > now) && location.state == .tombstoned &&
    location.revision == task.expectedLocationRevision && location.driverId == task.driverId &&
    location.storageKey == task.storageKey && location.provider == task.provider &&
    location.sizeBytes == task.sizeBytes && task.deleteAfter ≤ now && driver.enabled &&
    driver.revision == task.driverRevision && !activeLease db id now)
  some (task, driver)

/-- `load_abandoned_put`: the upload of a claimed task that is still safe to delete. -/
def loadAbandonedPut (db : Database) (id : Identity) (now : Nat) :
    Option (PutDeleteTaskRow × PutIntentRow × EvidenceRow × DriverRow) := do
  let task ← db.lifecycle.putTasks.lookup id
  let intent ← db.journal.putIntents.lookup id
  let evidence ← db.journal.uploadEvidence.lookup id
  let driver ← db.surroundings.drivers.lookup intent.driverId
  require (task.state == .claimed && task.leaseExpiresAt.any (· > now) && putTaskSafe db id)
  some (task, intent, evidence, driver)

end Skydriver
