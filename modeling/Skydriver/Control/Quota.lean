import Skydriver.Control.Authority
import Skydriver.Lib.SqlNumber

/-!
# The quota triggers

Four triggers on the insertion of a put intent compare the usage of every directory above it, and of its driver, with
the configured limits.  Usage is what is stored plus what the prepared intents that have not expired reserve.  Sums are
SQL sums: an overflow fails the insertion.
-/

namespace Skydriver

/-- The directories whose files count for a quota of `quotaId`: itself, and every active directory below it. -/
def Tree.descendants (tree : Tree) (quotaId : Identity) : List Identity :=
  (tree.directories.entries.map Sigma.fst).filter fun id =>
    ((tree.directories.lineage (fun row => if row.state = .active then row.parentId else none) id).map
      Prod.fst).contains quotaId

/-- The encoded size that an object of this description will have. -/
def reservedBytes (description : ObjectDescription) : SqlNumber :=
  let plaintextBytes := description.plaintextBytes.toNat
  match description.cryptoSuite with
  | .plaintext => .integer plaintextBytes
  | .encrypted =>
      (SqlNumber.integer plaintextBytes).add ((SqlNumber.integer 16).mul (.integer
        (if plaintextBytes = 0 then 0 else 1 + (plaintextBytes - 1) / description.encryptionFrameBytes)))

namespace Database

/-- A prepared intent holds its reservation until it expires. -/
def reserves (db : Database) (intent : PutIntentRow) : Bool := intent.state == .prepared && intent.expiresAt > db.now

def reservations (db : Database) : List PutIntentRow :=
  (db.journal.putIntents.entries.map Sigma.snd).filter db.reserves

/-! ### Drivers -/

/-- The locations of a driver that still take space. -/
def driverLocations (db : Database) (driverId : Text) : List LocationRow :=
  (db.objects.locations.entries.map Sigma.snd).filter fun location =>
    location.driverId == driverId && location.state != .deleted

def driverReservations (db : Database) (driverId : Text) : List PutIntentRow :=
  db.reservations.filter fun intent => intent.driverId == driverId

/-- `COALESCE(limit, 9223372036854775807)`. -/
def effectiveLimit (limit : Option (Fin (2 ^ 63))) : Nat := (limit.map Fin.val).getD 9223372036854775807

/-- Used, reserved and new bytes of a driver. -/
def driverBytes (db : Database) (intent : PutIntentRow) : Option SqlNumber := do
  let used ← SqlNumber.sum ((db.driverLocations intent.driverId).map fun location => .integer location.sizeBytes)
  let reserved ← SqlNumber.sum ((db.driverReservations intent.driverId).map fun other =>
    reservedBytes other.description)
  some ((used.add reserved).add (reservedBytes intent.description))

/-- Trigger `enforce_vfs_put_driver_quota`. -/
def driverQuotaAdmits (db : Database) (intent : PutIntentRow) : Bool :=
  match db.surroundings.driverQuotas.lookup intent.driverId with
  | none => true
  | some quota =>
      ((db.driverBytes intent).any fun total => !total.exceeds (effectiveLimit quota.maxPhysicalBytes)) &&
        (db.driverLocations intent.driverId).length + (db.driverReservations intent.driverId).length + 1 ≤
          effectiveLimit quota.maxObjectCount

/-! ### Directories -/

/-- The plaintext size of a version. -/
def versionBytes (db : Database) (versionId : Identity) : Option Nat :=
  (db.objects.versions.lookup versionId).map fun version => version.description.plaintextBytes.toNat

/-- The active files with an entry in one of the directories. -/
def filesIn (db : Database) (directories : List Identity) : List FileRow :=
  db.tree.entries.entries.filterMap fun row =>
    if directories.contains row.1.1 then
      match row.2.content with
      | .file fileId _ _ _ _ => (db.objects.files.lookup fileId).filter fun file => file.state == .active
      | .directory _ _ => none
    else none

/-- What a file takes: the size of its current version. -/
def fileBytes (db : Database) (file : FileRow) : Nat := ((file.currentVersionId.bind db.versionBytes).getD 0)

/-- What an intent reserves beyond the version it replaces. -/
def growth (db : Database) (intent : PutIntentRow) : Nat :=
  intent.description.plaintextBytes.toNat - ((intent.expectedCurrentVersionId.bind db.versionBytes).getD 0)

def reservationsIn (db : Database) (directories : List Identity) : List PutIntentRow :=
  db.reservations.filter fun intent => directories.contains intent.directoryId

/-- Committed, reserved and new bytes below a quota root. -/
def logicalBytes (db : Database) (quotaId : Identity) (intent : PutIntentRow) : Option SqlNumber := do
  let committed ← SqlNumber.sum ((db.filesIn (db.tree.descendants quotaId)).map fun file =>
    .integer (db.fileBytes file))
  let reserved ← SqlNumber.sum ((db.reservationsIn (db.tree.descendants quotaId)).map fun other =>
    .integer (db.growth other))
  some ((committed.add reserved).add (.integer (db.growth intent)))

def inheritedQuotas (db : Database) (directoryId : Identity) : List (Identity × DirectoryQuotaRow) :=
  (db.tree.ancestors directoryId).filterMap fun id => (db.surroundings.directoryQuotas.lookup id).map (id, ·)

/-- Trigger `enforce_vfs_put_max_file_bytes`. -/
def fileQuotaAdmits (db : Database) (intent : PutIntentRow) : Bool :=
  (db.inheritedQuotas intent.directoryId).all fun quota =>
    quota.2.maxFileBytes.all fun limit => intent.description.plaintextBytes.toNat ≤ limit.val

/-- Trigger `enforce_vfs_put_logical_quota`. -/
def logicalQuotaAdmits (db : Database) (intent : PutIntentRow) : Bool :=
  (db.inheritedQuotas intent.directoryId).all fun quota =>
    quota.2.maxLogicalBytes.all fun limit =>
      (db.logicalBytes quota.1 intent).any fun total => !total.exceeds limit.val

/-- Trigger `enforce_vfs_put_file_count_quota`, which only looks at new files. -/
def countQuotaAdmits (db : Database) (intent : PutIntentRow) : Bool :=
  intent.expectedCurrentVersionId.isSome ||
    (db.inheritedQuotas intent.directoryId).all fun quota =>
      quota.2.maxFileCount.all fun limit =>
        (db.filesIn (db.tree.descendants quota.1)).length +
          ((db.reservationsIn (db.tree.descendants quota.1)).filter fun other =>
            other.expectedCurrentVersionId.isNone).length + 1 ≤ limit.val

/-- All four triggers let the intent in. -/
def quotaAdmits (db : Database) (intent : PutIntentRow) : Bool :=
  db.fileQuotaAdmits intent && db.logicalQuotaAdmits intent && db.countQuotaAdmits intent && db.driverQuotaAdmits intent

end Database

end Skydriver
