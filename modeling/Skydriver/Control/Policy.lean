import Skydriver.Control.Batches

/-!
# The batches of token and policy management

Issuing and revoking tokens, and replacing the grants or the placement of one directory, again statement by statement
with the triggers that fence them.
-/

namespace Skydriver

/-! ### Tokens -/

structure TokenIssueBatch where
  parent : AuthenticatedToken
  requestSha256 : Digest
  idempotencyKey : Text
  tokenId : Identity
  verifierSha256 : Digest
  rootDirectoryId : Identity
  actions : List Action
  drivers : Option (List Text)
  expiresAt : Nat
  now : Nat

def issuedToken (batch : TokenIssueBatch) : TokenRow where
  principalId := batch.parent.principalId
  rootDirectoryId := batch.rootDirectoryId
  parentTokenId := some batch.parent.id
  verifierSha256 := batch.verifierSha256
  snapshotId := none
  expiresAt := batch.expiresAt
  sealedAt := some batch.now
  revokedAt := none
  actions := batch.actions
  drivers := batch.drivers.getD []

/-- The scope of `child` is inside that of `parent`: the last condition of `validate_vfs_token_seal`. -/
def tokenNarrows (tree : Tree) (parent child : TokenRow) (sealedAt : Nat) : Bool :=
  parent.sealedAt.isSome && parent.revokedAt.isNone && parent.principalId == child.principalId &&
    parent.expiresAt ≥ child.expiresAt && parent.expiresAt > sealedAt &&
    (parent.snapshotId.isNone || parent.snapshotId == child.snapshotId) &&
    (tree.ancestors child.rootDirectoryId).contains parent.rootDirectoryId &&
    (child.actions.all fun action => parent.actions.contains action) &&
    (parent.drivers.isEmpty || (!child.drivers.isEmpty && child.drivers.all fun driver =>
      parent.drivers.contains driver))

/-- Trigger `validate_vfs_token_seal`. -/
def sealAllowed (db : Database) (token : TokenRow) (sealedAt : Nat) : Bool :=
  !token.actions.isEmpty && sealedAt < token.expiresAt && db.principalActive token.principalId &&
    ((db.tree.directories.lookup token.rootDirectoryId).any fun row => row.state == .active) &&
    match token.parentTokenId with
    | none => true
    | some parentId => (db.authority.tokens.lookup parentId).any fun parent => tokenNarrows db.tree parent token sealedAt

def executeTokenIssue (batch : TokenIssueBatch) (db : Database) : Option Database := do
  let token := issuedToken batch
  require (batch.tokenId ≠ .zero 16 && batch.tokenId ≠ batch.parent.id && batch.now < batch.expiresAt)
  require (db.authority.tokens.lookup batch.tokenId).isNone
  require !(db.authority.tokens.any fun _ other => other.verifierSha256 == batch.verifierSha256)
  require (decide token.actions.Nodup && decide token.drivers.Nodup)
  require (token.drivers.all fun driver => (db.surroundings.drivers.lookup driver).isSome)
  require (sealAllowed db token batch.now)
  require (db.journal.tokenIssues.lookup (batch.parent.id, batch.idempotencyKey)).isNone
  require (batch.drivers != some [])
  let after : Database := { db with
    authority := { db.authority with tokens := db.authority.tokens.insert batch.tokenId token }
    journal := { db.journal with
      tokenIssues := db.journal.tokenIssues.insert (batch.parent.id, batch.idempotencyKey)
        ⟨batch.requestSha256, batch.parent.principalId, batch.rootDirectoryId, batch.tokenId, batch.actions,
          batch.drivers, batch.expiresAt⟩ } }
  require (after.chainAuthorized false batch.parent.id batch.parent.principalId batch.rootDirectoryId .tokenIssue)
  some after

structure TokenRevokeBatch where
  authorizer : AuthenticatedToken
  requestSha256 : Digest
  idempotencyKey : Text
  targetTokenId : Identity
  rootDirectoryId : Identity
  now : Nat

def executeTokenRevoke (batch : TokenRevokeBatch) (db : Database) : Option Database := do
  let target ← db.authority.tokens.lookup batch.targetTokenId
  -- an unrevoked target is revoked now; a revoked one is left alone, and then the receipt does not match
  require (target.revokedAt.isSome || target.sealedAt.any fun sealedAt => sealedAt ≤ batch.now)
  let revoked := if target.revokedAt.isNone then { target with revokedAt := some batch.now } else target
  require (batch.targetTokenId ≠ batch.authorizer.id)
  require (db.journal.tokenRevokes.lookup (batch.authorizer.id, batch.idempotencyKey)).isNone
  require (revoked.principalId == batch.authorizer.principalId && revoked.rootDirectoryId == batch.rootDirectoryId &&
    revoked.revokedAt == some batch.now)
  let after : Database := { db with
    authority := { db.authority with tokens := db.authority.tokens.insert batch.targetTokenId revoked }
    journal := { db.journal with
      tokenRevokes := db.journal.tokenRevokes.insert (batch.authorizer.id, batch.idempotencyKey)
        ⟨batch.requestSha256, batch.authorizer.principalId, batch.targetTokenId, batch.rootDirectoryId,
          batch.now⟩ } }
  require (after.chainAuthorized false batch.authorizer.id batch.authorizer.principalId batch.rootDirectoryId .tokenIssue)
  some after

/-! ### Policies -/

structure PolicyIntent where
  token : AuthenticatedToken
  requestSha256 : Digest
  idempotencyKey : Text
  operationId : Identity
  directoryId : Identity
  expectedRevision : Nat
  finalRevision : Nat
  now : Nat

def PolicyKind.action : PolicyKind → Action
  | .aclReplace => .aclManage
  | .placementReplace => .driverManage

/-- `INSERT INTO vfs_policy_mutation_intents` with its trigger, which runs before any policy row changes. -/
def policyIntentAllowed (kind : PolicyKind) (intent : PolicyIntent) (db : Database) : Bool :=
  intent.operationId ≠ .zero 16 && (db.journal.policies.lookup intent.operationId).isNone &&
    !(db.journal.policies.any fun _ other =>
      other.tokenId == intent.token.id && other.kind == kind && other.idempotencyKey == intent.idempotencyKey) &&
    db.chainAuthorized true intent.token.id intent.token.principalId intent.directoryId kind.action &&
    match kind with
    | .aclReplace => db.authority.aclRevisions.lookup intent.directoryId == some intent.expectedRevision
    | .placementReplace =>
        db.authority.placementRevisions.lookup intent.directoryId == some intent.expectedRevision &&
          (db.authority.tokens.lookup intent.token.id).any fun token => token.drivers.isEmpty

/-- `policy_finish_statements`. -/
def recordPolicy (kind : PolicyKind) (intent : PolicyIntent) (journal : Journal) : Journal :=
  { journal with
    policies := journal.policies.insert intent.operationId
      ⟨kind, intent.token.id, intent.directoryId, intent.requestSha256, intent.idempotencyKey, intent.finalRevision,
        intent.now⟩ }

/-- The replacement of one subject's grants on one directory. -/
structure AclReplaceBatch where
  intent : PolicyIntent
  subject : GrantSubject
  sourceRole : Option Text
  grants : List (Identity × Action)

/-- A subject that may receive grants on the directory. -/
def grantSubjectAvailable (db : Database) (directoryId : Identity) : GrantSubject → Bool
  | .principal id => db.principalActive id
  | .group id =>
      match db.surroundings.groups.lookup id, db.tree.directories.lookup directoryId with
      | some filesystemId, some directory => directory.filesystemId == filesystemId
      | _, _ => false

/-- Add the new grants one by one. -/
def insertGrants (directoryId : Identity) (subject : GrantSubject) (sourceRole : Option Text) :
    List (Identity × Action) → Table Identity GrantRow → Option (Table Identity GrantRow)
  | [], grants => some grants
  | (id, action) :: rest, grants => do
      require (id ≠ .zero 16 && (grants.lookup id).isNone)
      require !(grants.any fun _ other =>
        other.directoryId == directoryId && other.subject == subject && other.action == action)
      insertGrants directoryId subject sourceRole rest (grants.insert id ⟨directoryId, subject, action, sourceRole⟩)

def executeAclReplace (batch : AclReplaceBatch) (db : Database) : Option Database := do
  let directoryId := batch.intent.directoryId
  require (policyIntentAllowed .aclReplace batch.intent db)
  let concerns (grant : GrantRow) : Bool := grant.directoryId == directoryId && grant.subject == batch.subject
  let removed := (db.authority.grants.entries.filter fun row => concerns row.2).map Sigma.fst
  let kept := removed.foldl (fun table id => table.erase id) db.authority.grants
  require (batch.grants.isEmpty || grantSubjectAvailable db directoryId batch.subject)
  let grants ← insertGrants directoryId batch.subject batch.sourceRole batch.grants kept
  -- one revision for each deleted and each inserted grant
  let revision := batch.intent.expectedRevision + removed.length + batch.grants.length
  require (grantSubjectAvailable db directoryId batch.subject && revision == batch.intent.finalRevision)
  some { db with
    authority := { db.authority with
      grants
      aclRevisions := db.authority.aclRevisions.insert directoryId revision }
    journal := recordPolicy .aclReplace batch.intent db.journal }

/-- The replacement of the effective driver of one directory. -/
structure PlacementReplaceBatch where
  intent : PolicyIntent
  driverId : Text
  mount : Option MountKind

/-- `directoryId` is reached from `below` through active directories, as the descendants query walks. -/
def Tree.activeDescendant (tree : Tree) (directoryId below : Identity) : Bool :=
  ((tree.directories.lineage (fun row => if row.state = .active then row.parentId else none) below).map
    Prod.fst).contains directoryId

/-- Trigger `validate_vfs_mount_policy_intent_insert`: the driver stays the same, or nothing lies below. -/
def mountChangeSafe (db : Database) (directoryId : Identity) (driverId : Text) : Bool :=
  (db.authority.directoryDrivers.lookup (directoryId, driverId)).isSome ||
    !(db.tree.entries.any fun key _ => db.tree.activeDescendant directoryId key.1)

/-- Triggers `validate_vfs_directory_mount_insert` and `validate_vfs_mount_policy_commit`. -/
def mountAllowed (db : Database) (directoryId : Identity) (driverId : Text) (mount : Option MountKind) : Bool :=
  match db.tree.directories.lookup directoryId with
  | none => false
  | some directory =>
      match mount, directory.parentId with
      | some .default, none => directory.state == .active
      | some .mount, some _ =>
          directory.state == .active && !(db.tree.entries.any fun key _ => key.1 == directoryId) &&
            !((db.tree.ancestors directoryId).any fun above =>
              above != directoryId && db.isExplicitMount above)
      | none, some parentId => (db.authority.directoryDrivers.lookup (parentId, driverId)).isSome
      | _, _ => false

def executePlacementReplace (batch : PlacementReplaceBatch) (db : Database) : Option Database := do
  let directoryId := batch.intent.directoryId
  require (policyIntentAllowed .placementReplace batch.intent db)
  require (mountChangeSafe db directoryId batch.driverId)
  let removed := (db.authority.directoryDrivers.entries.filter fun row => row.1.1 == directoryId).map Sigma.fst
  let kept := removed.foldl (fun table key => table.erase key) db.authority.directoryDrivers
  let revision := batch.intent.expectedRevision + removed.length + 1
  require (db.driverEnabled batch.driverId && revision == batch.intent.finalRevision)
  require (mountAllowed db directoryId batch.driverId batch.mount)
  some { db with
    authority := { db.authority with
      directoryDrivers := kept.insert (directoryId, batch.driverId) ⟨0, true⟩
      placementRevisions := db.authority.placementRevisions.insert directoryId revision
      mounts :=
        match batch.mount with
        | none => db.authority.mounts.erase directoryId
        | some kind => (db.authority.mounts.erase directoryId).insert directoryId (batch.driverId, kind) }
    journal := recordPolicy .placementReplace batch.intent db.journal }

end Skydriver
