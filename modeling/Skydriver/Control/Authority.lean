import Skydriver.Control.Tree

/-!
# Who may do what where

The authority queries of the handlers and of the commit triggers.  Five of them walk the whole token chain and are
one definition here; the put protocol's own query, in the handler and in both of its triggers, looks at the acting token
only.
-/

namespace Skydriver

/-- What authentication hands to a handler. -/
structure AuthenticatedToken where
  id : Identity
  principalId : Identity
  rootDirectoryId : Identity
  expiresAt : Nat
deriving DecidableEq

namespace TokenRow

/-- Sealed, not revoked, and not expired. -/
def live (token : TokenRow) (now : Nat) : Bool :=
  token.sealedAt.isSome && token.revokedAt.isNone && token.expiresAt > now

def allowsDriver (token : TokenRow) (driverId : Text) : Bool :=
  token.drivers.isEmpty || token.drivers.contains driverId

end TokenRow

/-- The directories whose grants apply to `directoryId`: itself, and its ancestors as far as inheritance goes. -/
def Tree.aclDirectories (tree : Tree) (directoryId : Identity) : List Identity :=
  (tree.directories.lineage (fun row => if row.aclInherits then row.parentId else none) directoryId).map Prod.fst

namespace Database

/-- `unixepoch()`, and the clock of the handlers. -/
def now (db : Database) : Nat := db.surroundings.now

def tokenChain (db : Database) (tokenId : Identity) : List TokenRow :=
  (db.authority.tokens.lineage TokenRow.parentTokenId tokenId).map Prod.snd

def principalActive (db : Database) (principalId : Identity) : Bool :=
  db.surroundings.principals.lookup principalId == some .active

def driverEnabled (db : Database) (driverId : Text) : Bool :=
  (db.surroundings.drivers.lookup driverId).any DriverRow.enabled

/-- A grant names the principal or one of its groups. -/
def subjectIncludes (db : Database) (principalId : Identity) : GrantSubject → Bool
  | .principal id => id == principalId
  | .group id => db.surroundings.groupMembers.contains (id, principalId)

def granted (db : Database) (directoryId principalId : Identity) (action : Action) : Bool :=
  db.authority.grants.any fun _ grant =>
    grant.action == action && (db.tree.aclDirectories directoryId).contains grant.directoryId &&
      db.subjectIncludes principalId grant.subject

/-- The query shared by `vfs_access::authorized` and the mkdir, policy, token-issue and token-revoke triggers; the last
two do not look at the token's snapshot. -/
def chainAuthorized (db : Database) (checksSnapshot : Bool) (tokenId principalId directoryId : Identity)
    (action : Action) : Bool :=
  match db.authority.tokens.lookup tokenId, db.tree.directories.lookup directoryId with
  | some verifier, some target =>
      verifier.principalId == principalId && verifier.live db.now &&
        (!checksSnapshot || verifier.snapshotId.isNone) && db.principalActive verifier.principalId &&
        target.state == .active && (db.tree.ancestors directoryId).contains verifier.rootDirectoryId &&
        verifier.actions.contains action &&
        (db.tokenChain tokenId).all (fun chain => chain.live db.now && chain.principalId == verifier.principalId) &&
        db.granted directoryId verifier.principalId action
  | _, _ => false

/-- `vfs_access::authorized`. -/
def authorized (db : Database) (token : AuthenticatedToken) (directoryId : Identity) (action : Action) : Bool :=
  db.chainAuthorized true token.id token.principalId directoryId action

/-- `vfs_tokens::authenticate`: the token whose stored verifier is the digest of the presented bearer. -/
def authenticate (db : Database) (verifierSha256 : Digest) : Option AuthenticatedToken := do
  let found ← db.authority.tokens.entries.find? fun row => row.2.verifierSha256 == verifierSha256
  let token := found.2
  require (token.live db.now && db.principalActive token.principalId)
  require ((db.tokenChain found.1).all fun chain => chain.live db.now && chain.principalId == token.principalId)
  some ⟨found.1, token.principalId, token.rootDirectoryId, token.expiresAt⟩

/-! ### The put protocol -/

def putTokenAuthorized (db : Database) (tokenId principalId directoryId : Identity) (driverId : Text) : Bool :=
  match db.authority.tokens.lookup tokenId with
  | some verifier =>
      verifier.principalId == principalId && verifier.live db.now && verifier.snapshotId.isNone &&
        db.principalActive verifier.principalId &&
        (db.tree.ancestors directoryId).contains verifier.rootDirectoryId &&
        verifier.actions.contains .contentWrite && verifier.actions.contains .driverUse &&
        verifier.allowsDriver driverId
  | none => false

/-- The grant half: `COUNT(DISTINCT action) = 2` over `content.write` and `driver.use`. -/
def putGranted (db : Database) (directoryId principalId : Identity) : Bool :=
  db.granted directoryId principalId .contentWrite && db.granted directoryId principalId .driverUse

def keyAvailable (db : Database) (directoryId : Identity) (directory : DirectoryRow) : Bool :=
  directory.cryptoSuite == .plaintext ||
    db.authority.keyEpochs.lookup (directoryId, directory.activeKeyEpoch) == some (directory.cryptoSuite, .available)

/-- The target half: an active directory of that filesystem and encryption, placed on an enabled driver. -/
def putTargetAvailable (db : Database) (filesystemId directoryId : Identity) (driverId : Text) (cryptoSuite : CryptoSuite)
    (keyEpoch : Nat) : Bool :=
  match db.tree.directories.lookup directoryId, db.authority.directoryDrivers.lookup (directoryId, driverId) with
  | some directory, some placement =>
      directory.filesystemId == filesystemId && directory.state == .active && directory.cryptoSuite == cryptoSuite &&
        directory.activeKeyEpoch == keyEpoch && placement.active && db.driverEnabled driverId &&
        db.keyAvailable directoryId directory
  | _, _ => false

/-- What preparation reads from the directory and its placement. -/
structure PutContext where
  filesystemId : Identity
  cryptoSuite : CryptoSuite
  keyEpoch : Nat
  driverId : Text
deriving DecidableEq

/-- Placements of a directory in the order `write_priority, driver_id`. -/
def placements (db : Database) (directoryId : Identity) : List (Text × PlacementRow) :=
  ((db.authority.directoryDrivers.entries.filter fun row => row.1.1 == directoryId).map fun row =>
    (row.1.2, row.2)).insertionSort fun left right =>
      left.2.writePriority < right.2.writePriority ∨
        (left.2.writePriority = right.2.writePriority ∧ left.1 ≤ right.1)

/-- `authorize_context`: the first placement on which the token may put. -/
def authorizeContext (db : Database) (token : AuthenticatedToken) (directoryId : Identity)
    (requestedDriver : Option Text) : Option PutContext := do
  let directory ← db.tree.directories.lookup directoryId
  require (directory.state == .active && db.keyAvailable directoryId directory)
  require (db.putGranted directoryId token.principalId)
  let chosen ← (db.placements directoryId).find? fun placement =>
    placement.2.active && db.driverEnabled placement.1 && requestedDriver.all (· == placement.1) &&
      db.putTokenAuthorized token.id token.principalId directoryId placement.1
  some ⟨directory.filesystemId, directory.cryptoSuite, directory.activeKeyEpoch, chosen.1⟩

/-- `vfs_put::authorized`. -/
def putAuthorized (db : Database) (token : AuthenticatedToken) (directoryId : Identity) (driverId : Text) : Bool :=
  (db.authorizeContext token directoryId (some driverId)).isSome

/-- `has_enabled_placement`. -/
def hasEnabledPlacement (db : Database) (directoryId : Identity) : Bool :=
  db.authority.directoryDrivers.any fun key placement =>
    key.1 == directoryId && placement.active && db.driverEnabled key.2

/-- `vfs_mounts::is_explicit`. -/
def isExplicitMount (db : Database) (directoryId : Identity) : Bool :=
  (db.authority.mounts.lookup directoryId).any fun mount => mount.2 == .mount

/-- `vfs_mounts::same_effective_driver`. -/
def sameEffectiveDriver (db : Database) (left right : Identity) : Bool :=
  db.authority.directoryDrivers.any fun key placement =>
    key.1 == left && placement.active &&
      (db.authority.directoryDrivers.lookup (right, key.2)).any PlacementRow.active

end Database

end Skydriver
