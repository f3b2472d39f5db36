import Skydriver.Client.CatalogNode
import Skydriver.Lib.CrashProne
import Skydriver.Lib.Table

/-!
# The client catalog store

The store of one token: node files at their content addresses, a head file and the cursor of an incremental garbage
collection.  Publication writes nodes first and the head last, and each publication prunes one shard.

An operation is a program of file operations.  A change of a file is one write.  Temporary files carry no final name
and no reader looks at them, so the files leave them out and their creation, like every other system call that changes no
final name, is a call that may fail.  Which reads fail is decided by the world, once for each look at the files.
-/

namespace Skydriver.Client

open Checked

/-! ### Files -/

structure Files where
  nodes : Table NodePath (List UInt8)
  head : Option (List UInt8)
  cursor : Option (List UInt8)

/-- A change of one file under its final name. -/
inductive Change where
  | linkNode (path : NodePath) (sealed : List UInt8)
  | removeNode (path : NodePath)
  | renameHead (sealed : List UInt8)
  | removeHead
  | renameCursor (sealed : List UInt8)
  | removeCursor
deriving DecidableEq

inductive Reply where
  | changed
  | alreadyExists
  | notFound
deriving DecidableEq

/-- A hard link never replaces a file, a rename always does, and a missing file is not removed. -/
def Change.execute : Change → Files → Option (Files × Reply)
  | .linkNode path sealed, files =>
      match files.nodes.lookup path with
      | some _ => some (files, .alreadyExists)
      | none => some ({ files with nodes := files.nodes.insert path sealed }, .changed)
  | .removeNode path, files =>
      match files.nodes.lookup path with
      | some _ => some ({ files with nodes := files.nodes.erase path }, .changed)
      | none => some (files, .notFound)
  | .renameHead sealed, files => some ({ files with head := some sealed }, .changed)
  | .removeHead, files =>
      match files.head with
      | some _ => some ({ files with head := none }, .changed)
      | none => some (files, .notFound)
  | .renameCursor sealed, files => some ({ files with cursor := some sealed }, .changed)
  | .removeCursor, files =>
      match files.cursor with
      | some _ => some ({ files with cursor := none }, .changed)
      | none => some (files, .notFound)

/-- How reading a file fails: at its metadata, or at its content. -/
inductive ReadFault where
  | inspect
  | read
deriving DecidableEq

/-- Which reads fail at one look at the files. -/
structure Faults where
  head : Option ReadFault
  nodes : NodePath → Option ReadFault
  cursor : Option ReadFault

/-- Every read works. -/
def Faults.none : Faults := ⟨.none, fun _ => .none, .none⟩

/-- What an operation asks of the system. -/
inductive Effect where
  | system (context : String)
  | readFiles
  | randomNonce
  | listShard (shard : Text)
deriving DecidableEq

inductive Answer where
  | done
  | failed
  | faults (faults : Faults)
  | nonce (nonce : Bytes 12)
  | listing (paths : List NodePath)

abbrev Operation (α : Type) := ExceptT Error (Program Files Change Reply Effect Answer) α

section Primitives

variable {α : Type}

/-- One system call that changes no final name. -/
def attempt (context : String) : Operation Unit :=
  ExceptT.mk (.call (.system context) fun answer =>
    .done (match answer with
      | .failed => .error (localError context)
      | _ => .ok ()))

/-- A computation that touches no file. -/
def check (result : Except Error α) : Operation α := ExceptT.mk (.done result)

def look : Operation Files := ExceptT.mk (.read fun files => .done (.ok files))

def readFaults : Operation Faults :=
  ExceptT.mk (.call .readFiles fun answer =>
    .done (.ok (match answer with
      | .faults faults => faults
      | _ => .none)))

def freshNonce : Operation (Bytes 12) :=
  ExceptT.mk (.call .randomNonce fun answer =>
    .done (match answer with
      | .nonce nonce => .ok nonce
      | _ => .error (.invalidResponse "generate cache nonce")))

/-- The files of a shard directory in the order in which the system lists them; a missing directory lists nothing. -/
def listShard (shard : Text) : Operation (List NodePath) :=
  ExceptT.mk (.call (.listShard shard) fun answer =>
    .done (match answer with
      | .listing paths => .ok paths
      | _ => .error (localError "open catalog GC shard")))

/-- A change together with whether it was reported. -/
def tryChange (step : Change) : Operation (Option Reply) := ExceptT.mk (.write step fun reply => .done (.ok reply))

def change (step : Change) (context : String) : Operation Reply := do
  let reply ← tryChange step
  check (reply.orFail (localError context))

/-- `if let Ok(value) = first { value } else { recover }`. -/
def otherwise (first recover : Operation α) : Operation α :=
  ExceptT.mk (first.run >>= fun result =>
    match result with
    | .ok value => .done (.ok value)
    | .error _ => recover.run)

/-- `let _ = operation`. -/
def ignoring (operation : Operation α) : Operation Unit := ExceptT.mk (operation.run >>= fun _ => .done (.ok ()))

variable {world : Circumstances Files Change Reply Effect Answer} {guard : Change → Files → Prop}
  {post : α → Files → Prop} {lost : Error → Files → Prop} {files : Files}

theorem achieves_attempt {context : String} {post : Unit → Files → Prop} (hpost : post () files)
    (hlost : world.answers (.system context) files .failed → lost (localError context) files) :
    Program.Achieves world guard (attempt context) post lost files := by
  intro answer hanswer
  match answer, hanswer with
  | .failed, hanswer => exact hlost hanswer
  | .done, _ => exact hpost
  | .faults _, _ => exact hpost
  | .nonce _, _ => exact hpost
  | .listing _, _ => exact hpost

theorem achieves_check {result : Except Error α} (hpost : ∀ value, result = .ok value → post value files)
    (hlost : ∀ error, result = .error error → lost error files) :
    Program.Achieves world guard (check result) post lost files := by
  cases result with
  | ok value => exact hpost value rfl
  | error error => exact hlost error rfl

theorem achieves_look {post : Files → Files → Prop} (hpost : post files files) :
    Program.Achieves world guard look post lost files := hpost

theorem achieves_readFaults {post : Faults → Files → Prop}
    (hpost : ∀ faults, (world.answers .readFiles files (.faults faults) ∨ faults = .none) → post faults files) :
    Program.Achieves world guard readFaults post lost files := by
  intro answer hanswer
  match answer, hanswer with
  | .faults faults, hanswer => exact hpost faults (.inl hanswer)
  | .done, _ => exact hpost _ (.inr rfl)
  | .failed, _ => exact hpost _ (.inr rfl)
  | .nonce _, _ => exact hpost _ (.inr rfl)
  | .listing _, _ => exact hpost _ (.inr rfl)

theorem achieves_freshNonce {post : Bytes 12 → Files → Prop} (hpost : ∀ nonce, post nonce files)
    (hlost : ∀ answer, world.answers .randomNonce files answer → (∀ nonce, answer ≠ .nonce nonce) →
      lost (.invalidResponse "generate cache nonce") files) :
    Program.Achieves world guard freshNonce post lost files := by
  intro answer hanswer
  match answer, hanswer with
  | .nonce nonce, _ => exact hpost nonce
  | .done, hanswer => exact hlost _ hanswer (by simp)
  | .failed, hanswer => exact hlost _ hanswer (by simp)
  | .faults _, hanswer => exact hlost _ hanswer (by simp)
  | .listing _, hanswer => exact hlost _ hanswer (by simp)

theorem achieves_listShard {shard : Text} {post : List NodePath → Files → Prop} (hpost : ∀ paths, post paths files)
    (hlost : ∀ answer, world.answers (.listShard shard) files answer → (∀ paths, answer ≠ .listing paths) →
      lost (localError "open catalog GC shard") files) :
    Program.Achieves world guard (listShard shard) post lost files := by
  intro answer hanswer
  match answer, hanswer with
  | .listing paths, _ => exact hpost paths
  | .done, hanswer => exact hlost _ hanswer (by simp)
  | .failed, hanswer => exact hlost _ hanswer (by simp)
  | .faults _, hanswer => exact hlost _ hanswer (by simp)
  | .nonce _, hanswer => exact hlost _ hanswer (by simp)

theorem achieves_tryChange {step : Change} {post : Option Reply → Files → Prop} (hguard : guard step files)
    (hrefused : world.refuses step files ∨ world.execute step files = none → post none files)
    (hcommitted : ∀ after reply, world.execute step files = some (after, reply) →
      post (some reply) after ∧ (world.refuses step files → post none after)) :
    Program.Achieves world guard (tryChange step) post lost files := ⟨hguard, hrefused, hcommitted⟩

theorem achieves_change {step : Change} {context : String} {post : Reply → Files → Prop} (hguard : guard step files)
    (hrefused : world.refuses step files ∨ world.execute step files = none → lost (localError context) files)
    (hcommitted : ∀ after reply, world.execute step files = some (after, reply) →
      post reply after ∧ (world.refuses step files → lost (localError context) after)) :
    Program.Achieves world guard (change step context) post lost files :=
  Program.achieves_bind.mpr (achieves_tryChange hguard hrefused hcommitted)

theorem achieves_otherwise {first recover : Operation α}
    (h : Program.Achieves world guard first post (fun _ after => Program.Achieves world guard recover post lost after)
      files) : Program.Achieves world guard (otherwise first recover) post lost files := by
  refine Program.ensures_bind.mpr (Program.Ensures.mono h fun result after hresult => ?_)
  cases result with
  | ok value => exact hresult
  | error error => exact hresult

theorem achieves_ignoring {operation : Operation α} {post : Unit → Files → Prop}
    (h : Program.Achieves world guard operation (fun _ after => post () after) (fun _ after => post () after) files) :
    Program.Achieves world guard (ignoring operation) post lost files := by
  refine Program.ensures_bind.mpr (Program.Ensures.mono h fun result after hresult => ?_)
  cases result with
  | ok value => exact hresult
  | error error => exact hresult

end Primitives

/-! ### The store -/

structure CatalogStore where
  cipher : MetadataCache.MetadataCacheCipher
  enabled : Bool

namespace CatalogStore

variable (prims : ClientPrimitives) (store : CatalogStore)

def loadFrom (files : Files) (faults : Faults) (directoryId dataRoot : Text) : Except Error (Option CatalogNode) :=
  if store.enabled then do
    let _ ← decodeHex 16 directoryId "catalog directory identity"
    let _ ← decodeHex 32 dataRoot "catalog directory root"
    let path ← nodePath directoryId dataRoot
    ensure (localError "inspect catalog node") (faults.nodes path != some .inspect)
    match files.nodes.lookup path with
    | none => .ok none
    | some sealed => do
        ensure (.invalidResponse "catalog node is not a bounded regular file")
          (sealed.length ≤ MetadataCache.maximumEncodedBytes maximumNodeBytes)
        ensure (localError "read catalog node") (faults.nodes path != some .read)
        let node ← openNode prims store.cipher directoryId dataRoot sealed
        .ok (some node)
  else .ok none

def loadHeadFrom (files : Files) (faults : Faults) : Except Error (Option CatalogHead) := do
  ensure (localError "inspect catalog head") (faults.head != some .inspect)
  match files.head with
  | none => .ok none
  | some sealed => do
      ensure (.invalidResponse "catalog head is not a bounded regular file")
        (sealed.length ≤ MetadataCache.maximumEncodedBytes maximumHeadBytes)
      ensure (localError "read catalog head") (faults.head != some .read)
      let head ← openHead prims store.cipher sealed
      .ok (some head)

def load (directoryId dataRoot : Text) : Operation (Option CatalogNode) := do
  let faults ← readFaults
  let files ← look
  check (store.loadFrom prims files faults directoryId dataRoot)

def loadHead : Operation (Option CatalogHead) := do
  let faults ← readFaults
  let files ← look
  check (store.loadHeadFrom prims files faults)

def discardNode (directoryId dataRoot : Text) : Operation Unit :=
  if store.enabled then do
    let path ← check (nodePath directoryId dataRoot)
    let _ ← change (.removeNode path) "discard invalid catalog node"
  else pure ()

def discardHead : Operation Unit :=
  if store.enabled then do
    let _ ← change .removeHead "discard invalid catalog head"
  else pure ()

def writePrivateFile : Operation Unit := do
  attempt "create catalog temporary"
  attempt "write catalog temporary"
  attempt "sync catalog temporary"

def syncDirectory : Operation Unit := attempt "sync catalog directory"

def acquireHeadLock : Operation Unit := do
  attempt "open catalog head lock"
  attempt "inspect catalog head lock"
  attempt "lock catalog head"

/-- The part of `publish_node` behind a missing file: a temporary file is linked under the final name. -/
def writeNode (node : CatalogNode) : Operation CatalogNode := do
  let nodeBytes ← check (canonicalNodeBytes prims node)
  let encoded ← check (nodeEnvelope prims node)
  let path ← check (nodePath node.directoryId node.dataRoot)
  attempt "catalog node directory"
  let nonce ← freshNonce
  let sealed ← check (sealFile prims store.cipher (nodeContext node.directoryId node.dataRoot) nonce encoded)
  writePrivateFile
  match ← tryChange (.linkNode path sealed) with
  | some .alreadyExists => do
      attempt "remove raced catalog temporary"
      let raced ← store.load prims node.directoryId node.dataRoot
      let existing ← check (raced.orFail (.invalidResponse "raced catalog node disappeared"))
      let existingBytes ← check (canonicalNodeBytes prims existing)
      check (ensure (.invalidResponse "raced catalog node differs at one content address")
        (existingBytes == nodeBytes))
      pure existing
  | some _ => do
      syncDirectory
      attempt "remove catalog temporary"
      syncDirectory
      pure node
  | none => throw (localError "publish catalog node")

def publishNode (node : CatalogNode) : Operation CatalogNode := do
  check (validateNode prims node node.directoryId node.dataRoot)
  let found ← otherwise (store.load prims node.directoryId node.dataRoot) (do
    store.discardNode node.directoryId node.dataRoot
    pure none)
  match found with
  | some existing => do
      let existingBytes ← check (canonicalNodeBytes prims existing)
      let nodeBytes ← check (canonicalNodeBytes prims node)
      check (ensure (.invalidResponse "existing catalog node differs at one content address")
        (existingBytes == nodeBytes))
      pure existing
  | none => store.writeNode prims node

/-- The part of `publish_head_locked` behind the comparison with the existing head. -/
def replaceHead (head : CatalogHead) : Operation Bool := do
  let encoded ← check (headEnvelope prims head)
  let nonce ← freshNonce
  let sealed ← check (sealFile prims store.cipher headContext nonce encoded)
  writePrivateFile
  let _ ← change (.renameHead sealed) "publish catalog head"
  syncDirectory
  pure true

def publishHeadLocked (head : CatalogHead) : Operation Bool := do
  check (validateHead head)
  let found ← otherwise (store.loadHead prims) (do
    store.discardHead
    pure none)
  match found with
  | some existing =>
      if existing.revisionId > head.revisionId then pure false
      else if existing.revisionId == head.revisionId then do
        let existingBytes ← check (canonicalHeadBytes prims existing)
        let headBytes ← check (canonicalHeadBytes prims head)
        check (ensure (.invalidResponse "catalog head differs at one revision") (existingBytes == headBytes))
        pure true
      else store.replaceHead prims head
  | none => store.replaceHead prims head

def checkpointHead (checkpoint : CatalogCheckpoint) (etag : Text) : Except Error CatalogHead := do
  let checkpointBytes ← (prims.encodeCheckpoint checkpoint).orFail
    (.invalidResponse "encode catalog checkpoint receipt")
  .ok { schema := headSchema, filesystemId := checkpoint.filesystemId, revisionId := checkpoint.revisionId,
        rootDirectoryId := checkpoint.rootDirectoryId, rootDataRoot := checkpoint.rootDataRoot, etag,
        checkpointSha256 := hexEncode (prims.sha256 checkpointBytes).val }

def publishCheckpointHeadLocked (checkpoint : CatalogCheckpoint) (etag : Text) : Operation Bool := do
  let head ← check (checkpointHead prims checkpoint etag)
  store.publishHeadLocked prims head

/-! ### Garbage collection -/

def gcContext : Text := utf8 "gc-cursor"

/-- The shard to be pruned next; a cursor that cannot be read is a cursor at the first shard. -/
def loadGcShard : Operation UInt8 := do
  let faults ← readFaults
  let files ← look
  match files.cursor, faults.cursor with
  | some sealed, none =>
      match store.cipher.openRecord prims.toFramePrimitives gcContext sealed maximumGcCursorBytes with
      | .ok [shard] => pure shard
      | _ => do
          let _ ← tryChange .removeCursor
          pure 0
  | _, _ => pure 0

def publishGcShard (shard : UInt8) : Operation Unit := do
  let nonce ← freshNonce
  let sealed ← check (sealFile prims store.cipher gcContext nonce [shard])
  writePrivateFile
  let _ ← change (.renameCursor sealed) "publish catalog GC cursor"
  syncDirectory

/-- The loop over the files of one shard. -/
def pruneEntries (reachable : List NodePath) : List NodePath → Operation Unit
  | [] => pure ()
  | path :: paths => do
      attempt "read catalog GC entry"
      attempt "inspect catalog GC entry"
      if path ∈ reachable then pure ()
      else do
        let _ ← change (.removeNode path) "remove stale catalog node"
      pruneEntries reachable paths

def pruneOneShard (checkpoint : CatalogCheckpoint) : Operation Unit := do
  let shard ← store.loadGcShard prims
  let shardName := hexEncode [shard]
  let reachable ← check (Checked.traverse (fun directory => nodePath directory.directoryId directory.dataRoot)
    (checkpoint.directories.filter fun directory => shardName.isPrefixOf directory.dataRoot))
  let order ← listShard shardName
  let files ← look
  pruneEntries reachable (order.filter fun path => path.shard == shardName && (files.nodes.lookup path).isSome)
  store.publishGcShard prims (shard + 1)

/-! ### Publication -/

def publishNodes : List CatalogCheckpointDirectory → Operation Unit
  | [] => pure ()
  | directory :: directories => do
      let _ ← store.publishNode prims (checkpointNode directory)
      publishNodes directories

/-- The end of a publication: the head becomes visible, and where it is this checkpoint one shard is pruned. -/
def publishHeadAndPrune (checkpoint : CatalogCheckpoint) (etag : Text) : Operation Unit := do
  if ← store.publishCheckpointHeadLocked prims checkpoint etag then ignoring (store.pruneOneShard prims checkpoint)
  else pure ()

def publishCheckpoint (checkpoint : CatalogCheckpoint) (etag : Text) : Operation Unit := do
  check (orInvalidResponse Error.display (validateCatalogCheckpoint prims.toPrimitives checkpoint))
  check (orInvalidResponse Error.display (validateCatalogCheckpointEtag etag))
  if store.enabled then do
    acquireHeadLock
    store.publishNodes prims checkpoint.directories
    store.publishHeadAndPrune prims checkpoint etag
  else pure ()

/-- The pending nodes linked by a loaded directory. -/
def baseChildren (directoryId : Text) : List CatalogCheckpointEntry → Except Error (List PendingNode)
  | [] => .ok []
  | entry :: entries =>
      match entry.kind with
      | .file => baseChildren directoryId entries
      | .directory => do
          let childId ← entry.childDirectoryId.orFail (.invalidResponse "local catalog child identity is missing")
          let children ← baseChildren directoryId entries
          .ok ({ directoryId := childId, dataRoot := entry.dataRoot, parentDirectoryId := some directoryId,
                 name := entry.name } :: children)

/-- A loaded directory at the place that its link demands. -/
def baseDirectory (pending : PendingNode) (node : CatalogNode) : CatalogCheckpointDirectory where
  directoryId := pending.directoryId
  parentDirectoryId := pending.parentDirectoryId
  name := pending.name
  dataRoot := pending.dataRoot
  entries := node.entries.map checkpointEntry

/-- The loop of `reconstruct_checkpoint`.  Each iteration loads another file, so that one more iteration than there are
files is never used up. -/
def walkNodes (read : Text → Text → Except Error (Option CatalogNode)) :
    Nat → List PendingNode → List Text → List CatalogCheckpointDirectory →
      Except Error (List CatalogCheckpointDirectory)
  | _, [], _, directories => .ok directories
  | 0, _ :: _, _, _ => .error (.invalidResponse "local catalog base node is missing")
  | fuel + 1, pending :: rest, visited, directories => do
      ensure (.invalidResponse "local catalog base is not a tree") (!visited.contains pending.directoryId)
      let loaded ← read pending.directoryId pending.dataRoot
      let node ← loaded.orFail (.invalidResponse "local catalog base node is missing")
      let directory := baseDirectory pending node
      let children ← baseChildren pending.directoryId directory.entries
      walkNodes read fuel (children ++ rest) (pending.directoryId :: visited) (directories ++ [directory])

/-- The node from which a reconstruction starts. -/
def headPending (head : CatalogHead) : PendingNode where
  directoryId := head.rootDirectoryId
  dataRoot := head.rootDataRoot
  parentDirectoryId := none
  name := []

/-- The checkpoint below a head, with placeholders for its parent revision and its time of creation. -/
def baseCheckpoint (head : CatalogHead) (directories : List CatalogCheckpointDirectory) : CatalogCheckpoint where
  schema := catalogCheckpointSchema
  filesystemId := head.filesystemId
  revisionId := head.revisionId
  parentRevisionId := none
  rootDirectoryId := head.rootDirectoryId
  rootDataRoot := head.rootDataRoot
  createdAt := 1
  directories := KeyOrder.sortByKey CatalogCheckpointDirectory.directoryId directories

def reconstructFrom (files : Files) (faults : Faults) (head : CatalogHead) : Except Error CatalogCheckpoint := do
  let directories ← walkNodes (store.loadFrom prims files faults) (files.nodes.entries.length + 1) [headPending head]
    [] []
  let checkpoint := baseCheckpoint head directories
  orInvalidResponse Error.display (validateCatalogCheckpoint prims.toPrimitives checkpoint)
  .ok checkpoint

def reconstructCheckpoint (head : CatalogHead) : Operation CatalogCheckpoint := do
  let faults ← readFaults
  let files ← look
  check (store.reconstructFrom prims files faults head)

def applyDelta (delta : CatalogDelta) (etag : Text) : Operation Unit := do
  acquireHeadLock
  let found ← store.loadHead prims
  let head ← check (found.orFail (.invalidResponse "catalog delta has no local base head"))
  let base ← store.reconstructCheckpoint prims head
  let checkpoint ← check (orInvalidResponse Error.display
    (applyCatalogDelta prims.toCatalogPrimitives base head.checkpointSha256 delta))
  store.publishNodes prims delta.directories
  store.publishHeadAndPrune prims checkpoint etag

end CatalogStore

end Skydriver.Client
