import Skydriver.Lib.Interleaving
import Skydriver.Control.Authority

/-!
# Planning directory roots

The planners of the put, mkdir, remove and rename protocols.  Each reads the directory rows and listings it needs one
query at a time, recomputes every root it relies on, and returns the compare-and-swap plan that one batch will carry
out.  The three planners that rewrite a single chain of ancestors are one walk with the edit of its first directory as a
parameter; rename merges two chains.
-/

namespace Skydriver

/-- The longest chain of directories a planner rewrites. -/
def maximumDirectoryDepth : Nat := 32

/-- An error that ends the request. -/
inductive PlannerError where
  | ancestry
  | rootMismatch (directoryId : Identity)
  | verifyRoot (error : Error)
  | computeRoot (operation : MutationKind) (error : Error)
  | unchangedRoot (operation : MutationKind)
  | sourceChanged
deriving DecidableEq

/-- The text of a planner error, without the identifiers and causes that the source appends to it. -/
def PlannerError.message : PlannerError → String
  | .ancestry => "VFS directory ancestry is cyclic or too deep"
  | .rootMismatch _ => "VFS directory root does not match its entries"
  | .verifyRoot _ => "verify current VFS directory root"
  | .computeRoot .put _ | .computeRoot .mkdir _ => "compute VFS directory root"
  | .computeRoot .remove _ => "compute VFS removal root"
  | .computeRoot .rename _ => "compute VFS rename root"
  | .unchangedRoot .put => "VFS put did not change its directory root"
  | .unchangedRoot .mkdir => "VFS directory creation did not change its parent root"
  | .unchangedRoot .remove => "VFS removal did not change its directory root"
  | .unchangedRoot .rename => "VFS rename did not change its root"
  | .sourceChanged => "VFS rename source changed"

/-- `RootPlanResult`, or the error in its place. -/
inductive Planning where
  | planned (plan : RootPlan)
  | contended
  | preconditionChanged
  | failed (error : PlannerError)
deriving DecidableEq

section Programs

variable {μ ρ ε ι : Type}

/-- `load_directory`. -/
def loadDirectory (directoryId : Identity) : Program Database μ ρ ε ι (Option DirectoryRow) :=
  .query fun db => db.tree.directories.lookup directoryId

/-- `load_directory_entries`. -/
def loadDirectoryEntries (directoryId : Identity) : Program Database μ ρ ε ι (List StoredEntry) :=
  .query fun db => db.tree.storedEntries directoryId

/-- The columns that `same_directory_snapshot` compares. -/
def DirectoryRow.sameSnapshot (left right : DirectoryRow) : Bool :=
  left.filesystemId == right.filesystemId && left.parentId == right.parentId && left.name == right.name &&
    left.dataRoot == right.dataRoot && left.revision == right.revision && left.state == right.state

/-- What a planner answers when a root does not match its listing: a concurrent change, or damage. -/
def rootMismatch (directoryId : Identity) (observed : DirectoryRow) : Program Database μ ρ ε ι Planning := do
  match ← loadDirectory directoryId with
  | none => return .contended
  | some current =>
      if observed.sameSnapshot current then return .failed (.rootMismatch directoryId) else return .contended

/-- Read a listing and check it against the root of an already loaded row. -/
def loadVerifiedEntries (prims : Primitives) (directoryId : Identity) (row : DirectoryRow) :
    Program Database μ ρ ε ι (Except Planning (List StoredEntry)) := do
  let stored ← loadDirectoryEntries directoryId
  match directoryMerkleRoot prims (stored.map StoredEntry.entry) with
  | .error error => return .error (.failed (.verifyRoot error))
  | .ok currentRoot =>
      if currentRoot = row.dataRoot then return .ok stored
      else
        let planning ← rootMismatch directoryId row
        return .error planning

/-! ### One chain of ancestors -/

/-- The edit of the first directory of a chain: the name it concerns, which current entry it accepts there, and the
entry it leaves. -/
structure DirectEdit where
  name : Text
  accepts : Option StoredEntry → Bool
  replacement : Option DirectoryMerkleEntry
  operation : MutationKind

/-- What changes in the directory at hand: the edit itself, or the root of a child rewritten before. -/
inductive Replacement where
  | direct
  | child (id : Identity) (name : Text) (dataRoot : Digest)

/-- The name a level of the walk looks for. -/
def Replacement.target (edit : DirectEdit) : Replacement → Text
  | .direct => edit.name
  | .child _ name _ => name

/-- The new listing of one directory and the link it contributes; absent when the precondition does not hold. -/
def editEntries (edit : DirectEdit) (replacement : Replacement) (directoryId : Identity) (stored : List StoredEntry) :
    Option (List DirectoryMerkleEntry × List LinkUpdate) :=
  let target := replacement.target edit
  let matched := stored.find? fun candidate => entryName candidate.entry == target
  let kept := (stored.filter fun candidate => entryName candidate.entry != target).map StoredEntry.entry
  match replacement with
  | .direct => if edit.accepts matched then some (kept ++ edit.replacement.toList, []) else none
  | .child id name dataRoot =>
      match matched with
      | some ⟨.directory _ stableId _, revision⟩ =>
          if stableId = id then
            some (kept ++ [.directory name id dataRoot], [⟨directoryId, id, name, revision, dataRoot⟩])
          else none
      | _ => none

/-- One level of a walk: the update of the directory at hand and the link it contributes. -/
def planLevel (prims : Primitives) (edit : DirectEdit) (replacement : Replacement) (directoryId : Identity)
    (row : DirectoryRow) (stored : List StoredEntry) : Except Planning (DirectoryUpdate × List LinkUpdate) :=
  match editEntries edit replacement directoryId stored with
  | none => .error .preconditionChanged
  | some (entries, links) =>
      match directoryMerkleRoot prims entries with
      | .error error => .error (.failed (.computeRoot edit.operation error))
      | .ok newRoot =>
          if newRoot = row.dataRoot then .error (.failed (.unchangedRoot edit.operation))
          else .ok (⟨directoryId, row.revision, row.dataRoot, newRoot, entries⟩, links)

/-- The loop of the chain planners.  `fuel` is what `directories.len() < MAXIMUM_DIRECTORY_DEPTH` leaves. -/
def walkAncestors (prims : Primitives) (filesystemId : Identity) (edit : DirectEdit) :
    Nat → Identity → List Identity → Replacement → List DirectoryUpdate → List LinkUpdate →
      Program Database μ ρ ε ι Planning
  | 0, _, _, _, _, _ => .done (.failed .ancestry)
  | fuel + 1, currentId, visited, replacement, directories, links =>
      if visited.contains currentId then .done (.failed .ancestry)
      else do
        match ← loadDirectory currentId with
        | none => return .preconditionChanged
        | some directory =>
            if directory.filesystemId ≠ filesystemId ∨ directory.state ≠ .active then return .preconditionChanged
            else
              match ← loadVerifiedEntries prims currentId directory with
              | .error planning => return planning
              | .ok stored =>
                  match planLevel prims edit replacement currentId directory stored with
                  | .error planning => return planning
                  | .ok (update, link) =>
                      match directory.parentId with
                      | none => return .planned ⟨directories ++ [update], links ++ link, update.newRoot⟩
                      | some parentId =>
                          walkAncestors prims filesystemId edit fuel parentId (currentId :: visited)
                            (.child currentId directory.name update.newRoot) (directories ++ [update])
                            (links ++ link)

def planChain (prims : Primitives) (filesystemId directoryId : Identity) (edit : DirectEdit) :
    Program Database μ ρ ε ι Planning :=
  walkAncestors prims filesystemId edit maximumDirectoryDepth directoryId [] .direct [] []

/-- `target_entry_matches`. -/
def targetEntryMatches (intent : PutIntentRow) (matched : Option StoredEntry) : Bool :=
  if intent.expectedEntryRevision = 0 then matched.isNone
  else
    match matched with
    | some ⟨.file _ stableId versionId _ _ _, revision⟩ =>
        revision == intent.expectedEntryRevision && stableId == intent.fileId &&
          some versionId == intent.expectedCurrentVersionId
    | _ => false

def putContent (intent : PutIntentRow) : EntryContent :=
  .file intent.fileId intent.versionId intent.description.plaintextBytes intent.description.fileRoot
    intent.metadataRoot

def putEdit (intent : PutIntentRow) : DirectEdit where
  name := intent.entryName
  accepts := targetEntryMatches intent
  replacement := some ((putContent intent).merkle intent.entryName)
  operation := .put

def newChildEdit (childDirectoryId : Identity) (childName : Text) (childRoot : Digest) : DirectEdit where
  name := childName
  accepts := Option.isNone
  replacement := some (.directory childName childDirectoryId childRoot)
  operation := .mkdir

def removalEdit (name : Text) (expectedEntryRevision : Nat) : DirectEdit where
  name := name
  accepts := fun matched => matched.any fun existing => existing.revision == expectedEntryRevision
  replacement := none
  operation := .remove

/-- The file precondition that `plan_directory_roots` checks first. -/
def filePrecondition (intent : PutIntentRow) (file : Option FileRow) : Bool :=
  if intent.expectedEntryRevision = 0 then file.isNone
  else file.any fun found =>
    found.state == .active && found.revision == intent.expectedFileRevision &&
      found.currentVersionId == intent.expectedCurrentVersionId

/-- `plan_directory_roots`. -/
def planDirectoryRoots (prims : Primitives) (intent : PutIntentRow) : Program Database μ ρ ε ι Planning := do
  let file ← .query fun db => db.objects.files.lookup intent.fileId
  if filePrecondition intent file then
    planChain prims intent.filesystemId intent.directoryId (putEdit intent)
  else return .preconditionChanged

/-- `plan_new_child_directory_roots`. -/
def planNewChildDirectoryRoots (prims : Primitives) (filesystemId parentDirectoryId childDirectoryId : Identity)
    (childName : Text) (childRoot : Digest) : Program Database μ ρ ε ι Planning :=
  planChain prims filesystemId parentDirectoryId (newChildEdit childDirectoryId childName childRoot)

/-- `plan_entry_removal_roots`. -/
def planEntryRemovalRoots (prims : Primitives) (filesystemId directoryId : Identity) (name : Text)
    (expectedEntryRevision : Nat) : Program Database μ ρ ε ι Planning :=
  planChain prims filesystemId directoryId (removalEdit name expectedEntryRevision)

/-! ### Two chains -/

abbrev LoadedDirectory := Identity × DirectoryRow

/-- The loop of `load_ancestor_chain`; `none` is the ancestry error, and an empty chain a failed precondition. -/
def loadAncestors (filesystemId : Identity) :
    Nat → Identity → List LoadedDirectory → Program Database μ ρ ε ι (Option (List LoadedDirectory))
  | 0, _, _ => .done none
  | fuel + 1, current, chain =>
      if (chain.map Prod.fst).contains current then .done none
      else do
        match ← loadDirectory current with
        | none => return some []
        | some row =>
            if row.filesystemId ≠ filesystemId ∨ row.state ≠ .active then return some []
            else
              match row.parentId with
              | none => return some (chain ++ [(current, row)])
              | some parent => loadAncestors filesystemId fuel parent (chain ++ [(current, row)])

/-- `load_ancestor_chain`. -/
def loadAncestorChain (filesystemId directoryId : Identity) :
    Program Database μ ρ ε ι (Option (List LoadedDirectory)) :=
  loadAncestors filesystemId maximumDirectoryDepth directoryId []

/-- How many directories of a chain are above `id`; zero when `id` is not in it. -/
def depthIn (chain : List LoadedDirectory) (id : Identity) : Nat :=
  chain.length - (chain.map Prod.fst).idxOf id - 1

/-- The rows of both chains under their identities, the source chain's row winning, in identity order. -/
def mergeChains (source destination : List LoadedDirectory) : List LoadedDirectory :=
  (source ++ destination.filter fun row => !(source.map Prod.fst).contains row.1).insertionSort fun left right =>
    left.1.val ≤ right.1.val

/-- `load_directory_entries` for every merged row, each verified against its row. -/
def loadListings (prims : Primitives) :
    List LoadedDirectory → Program Database μ ρ ε ι (Except Planning (List (LoadedDirectory × List StoredEntry)))
  | [] => .done (.ok [])
  | row :: rows => do
      match ← loadVerifiedEntries prims row.1 row.2 with
      | .error planning => return .error planning
      | .ok stored =>
          match ← loadListings prims rows with
          | .error planning => return .error planning
          | .ok listings => return .ok ((row, stored) :: listings)

/-- Which entry moves where. -/
structure RenameTarget where
  sourceDirectoryId : Identity
  sourceName : Text
  destinationDirectoryId : Identity
  destinationName : Text
deriving DecidableEq

/-- `renamed_entry`. -/
def renamedEntry (name : Text) : DirectoryMerkleEntry → DirectoryMerkleEntry
  | .file _ stableId versionId sizeBytes dataRoot metadataRoot =>
      .file name stableId versionId sizeBytes dataRoot metadataRoot
  | .directory _ stableId dataRoot => .directory name stableId dataRoot

def newRootOf (updates : List DirectoryUpdate) (directoryId : Identity) : Option Digest :=
  (updates.find? fun update => update.directoryId == directoryId).map DirectoryUpdate.newRoot

/-- A stored entry with the new root of its child, if that child was rewritten. -/
def relinkEntry (updates : List DirectoryUpdate) (directoryId : Identity) (stored : StoredEntry) :
    DirectoryMerkleEntry × List LinkUpdate :=
  match stored.entry with
  | .directory name stableId dataRoot =>
      match newRootOf updates stableId with
      | some root => (.directory name stableId root, [⟨directoryId, stableId, name, stored.revision, root⟩])
      | none => (.directory name stableId dataRoot, [])
  | entry => (entry, [])

/-- The new listing of one directory of the merged chains. -/
def renameEntries (target : RenameTarget) (moved : DirectoryMerkleEntry) (updates : List DirectoryUpdate)
    (directoryId : Identity) (stored : List StoredEntry) : List DirectoryMerkleEntry × List LinkUpdate :=
  let kept := stored.filter fun candidate =>
    !(directoryId == target.sourceDirectoryId && entryName candidate.entry == target.sourceName)
  let relinked := kept.map (relinkEntry updates directoryId)
  (relinked.map Prod.fst ++ (if directoryId = target.destinationDirectoryId then [moved] else []),
    (relinked.map Prod.snd).flatten)

/-- The loop over the merged directories, deepest first. -/
def renameLevels (prims : Primitives) (target : RenameTarget) (moved : DirectoryMerkleEntry) :
    List (LoadedDirectory × List StoredEntry) → List DirectoryUpdate → List LinkUpdate →
      Except Planning (List DirectoryUpdate × List LinkUpdate)
  | [], updates, links => .ok (updates, links)
  | ((id, row), stored) :: rest, updates, links =>
      let level := renameEntries target moved updates id stored
      match directoryMerkleRoot prims level.1 with
      | .error error => .error (.failed (.computeRoot .rename error))
      | .ok newRoot =>
          if newRoot = row.dataRoot then renameLevels prims target moved rest updates (links ++ level.2)
          else
            renameLevels prims target moved rest (updates ++ [⟨id, row.revision, row.dataRoot, newRoot, level.1⟩])
              (links ++ level.2)

/-- The pure part of `plan_entry_rename_roots`, after all reads. -/
def planRename (prims : Primitives) (target : RenameTarget) (expectedSourceRevision : Nat)
    (sourceChain destinationChain : List LoadedDirectory) (listings : List (LoadedDirectory × List StoredEntry)) :
    Planning :=
  let storedAt (id : Identity) := ((listings.find? fun listing => listing.1.1 == id).map Prod.snd).getD []
  let sourceStored := ((storedAt target.sourceDirectoryId).find? fun stored =>
    entryName stored.entry == target.sourceName).filter fun stored => stored.revision == expectedSourceRevision
  match sourceStored with
  | none => .failed .sourceChanged
  | some source =>
      if (storedAt target.destinationDirectoryId).any fun stored =>
          entryName stored.entry == target.destinationName then .preconditionChanged
      else if (match source.entry with
          | .directory _ stableId _ => (destinationChain.map Prod.fst).contains stableId
          | .file _ _ _ _ _ _ => false) then .preconditionChanged
      else
        let depth (listing : LoadedDirectory × List StoredEntry) :=
          max (depthIn sourceChain listing.1.1) (depthIn destinationChain listing.1.1)
        let ordered := listings.insertionSort fun left right =>
          depth right < depth left ∨ (depth left = depth right ∧ left.1.1.val ≤ right.1.1.val)
        match renameLevels prims target (renamedEntry target.destinationName source.entry) ordered [] [] with
        | .error planning => planning
        | .ok (updates, links) =>
            match sourceChain.getLast?.bind fun last => newRootOf updates last.1 with
            | none => .failed (.unchangedRoot .rename)
            | some root => .planned ⟨updates, links, root⟩

/-- `plan_entry_rename_roots`. -/
def planEntryRenameRoots (prims : Primitives) (filesystemId : Identity) (target : RenameTarget)
    (expectedSourceRevision : Nat) : Program Database μ ρ ε ι Planning := do
  match ← loadAncestorChain filesystemId target.sourceDirectoryId with
  | none => return .failed .ancestry
  | some sourceChain =>
      match ← loadAncestorChain filesystemId target.destinationDirectoryId with
      | none => return .failed .ancestry
      | some destinationChain =>
          if sourceChain.isEmpty || destinationChain.isEmpty then return .preconditionChanged
          else
            match ← loadListings prims (mergeChains sourceChain destinationChain) with
            | .error planning => return planning
            | .ok listings => return planRename prims target expectedSourceRevision sourceChain destinationChain listings

end Programs

end Skydriver
