import Skydriver.Control.Committed

/-!
# Where a batch comes from

What a handler knew when it submitted a namespace batch or asked a provider to delete an object, in terms of the earlier
moments at which it read.  Every handler keeps these promises whatever runs between its steps, so each committed batch
of a run comes with its origin.
-/

namespace Skydriver

/-- A moment of the control plane. -/
abbrev Instant := Moment Database Mutation

abbrev Planner := Program Database Mutation Bool Effect Answer Planning

/-- The plan was computed from reads that ended before `now`. -/
def PlannedBefore (planner : Planner) (plan : RootPlan) (now : Instant) : Prop :=
  ∃ first last, last.Before now ∧ planner.Yields first (.planned plan) last

/-- Something was read before `now`. -/
def ReadBefore (now : Instant) (observed : Database → Prop) : Prop :=
  ∃ past : Instant, past.Before now ∧ observed past.state

/-- What a removal rests on: authority over the directory, the entry under its name, and the plan. -/
structure RemoveOrigin (prims : Primitives) (batch : RemoveBatch) (now : Instant) : Prop where
  checked : ReadBefore now fun db => db = batch.checkedIn
  authorized : batch.checkedIn.authorized batch.token batch.directoryId .entryDelete = true
  loaded : ReadBefore now fun db =>
    loadEntry db batch.directoryId batch.name = some (batch.filesystemId, batch.entry)
  revision : batch.entry.revision = batch.expectedEntryRevision
  planned : PlannedBefore
    (planEntryRemovalRoots prims batch.filesystemId batch.directoryId batch.name batch.expectedEntryRevision)
    batch.plan now

/-- What a rename rests on: authority over both directories, the entry under its old name, and the plan. -/
structure RenameOrigin (prims : Primitives) (batch : RenameBatch) (now : Instant) : Prop where
  distinct : ¬(batch.target.sourceDirectoryId = batch.target.destinationDirectoryId ∧
    batch.target.sourceName = batch.target.destinationName)
  sourceChecked : ReadBefore now fun db => db = batch.sourceCheckedIn
  sourceAuthorized : batch.sourceCheckedIn.authorized batch.token batch.target.sourceDirectoryId .entryDelete = true
  destinationChecked : ReadBefore now fun db => db = batch.destinationCheckedIn
  destinationAuthorized :
    batch.destinationCheckedIn.authorized batch.token batch.target.destinationDirectoryId .contentWrite = true
  loaded : ReadBefore now fun db =>
    loadEntry db batch.target.sourceDirectoryId batch.target.sourceName = some (batch.filesystemId, batch.entry)
  revision : batch.entry.revision = batch.expectedSourceRevision
  planned : PlannedBefore (planEntryRenameRoots prims batch.filesystemId batch.target batch.expectedSourceRevision)
    batch.plan now

/-- What a preparation rests on: a valid request, a target with authority over it, and the time. -/
structure PrepareOrigin (prims : Primitives) (batch : PutPrepareBatch) (now : Instant) : Prop where
  bound : ∃ token request context target clock, batch = ⟨request.intentId,
    preparedIntent token request context target clock⟩ ∧ validPrepareRequest prims request = true ∧
    ReadBefore now (fun db => db.now = clock) ∧ ReadBefore now (fun db => preparedTarget request db = some target)

/-- What the publication of an upload rests on: the intent, a proof of the size it calls for, and the plan. -/
structure CommitOrigin (prims : Primitives) (batch : PutCommitBatch) (intent : PutIntentRow) (now : Instant) :
    Prop where
  read : ReadBefore now fun db => db.journal.putIntents.lookup batch.intentId = some intent
  integer : validInteger batch.proof.encodedBytes = true
  encoded : expectedEncodedBytes intent.description = some batch.proof.encodedBytes
  planned : PlannedBefore (planDirectoryRoots prims intent) batch.plan now

/-- What a batch rests on; `failed` is what the failure of a location delete task rests on. -/
def OriginUnder (failed : Identity → Nat → Option Nat → Instant → Prop) (prims : Primitives) : Mutation → Instant → Prop
  | .putPrepare batch, now => PrepareOrigin prims batch now
  | .putCommit batch, now => ∃ intent, CommitOrigin prims batch intent now
  | .mkdir batch, now =>
      directoryMerkleRoot prims [] = .ok batch.emptyRoot ∧
        PlannedBefore (planNewChildDirectoryRoots prims batch.filesystemId batch.parentDirectoryId
          batch.childDirectoryId batch.name batch.emptyRoot) batch.plan now
  | .remove batch, now => RemoveOrigin prims batch now
  | .rename batch, now => RenameOrigin prims batch now
  | .placementReplace batch, now =>
      ReadBefore now fun db => desiredMount db batch.intent.directoryId batch.driverId = some batch.mount
  | .maintenance clock, now => ReadBefore now fun db => db.now = clock
  | .locationFail id fencingToken retryAt, now => failed id fencingToken retryAt now
  | _, _ => True

/-- Any failure of a delete task will do. -/
def anyFailure : Identity → Nat → Option Nat → Instant → Prop := fun _ _ _ _ => True

/-- What a batch rests on. -/
abbrev Origin (prims : Primitives) : Mutation → Instant → Prop := OriginUnder anyFailure prims

/-- What a request to a provider rests on: a location, or an abandoned upload, that was safe to delete when it was last
looked at under a time read before. -/
def EffectOrigin : Effect → Instant → Prop
  | .validateStagedManifest _ _, _ => True
  | .deleteObject (.location id) _ driverId storageKey _ _, now =>
      ∃ clock task driver, ReadBefore now (fun db => db.now = clock) ∧
        ReadBefore now (fun db => loadRevalidated db id clock = some (task, driver)) ∧
        task.driverId = driverId ∧ task.storageKey = storageKey
  | .deleteObject (.abandonedPut id) _ driverId storageKey _ _, now =>
      ∃ clock task intent evidence driver,
        ReadBefore now (fun db => loadAbandonedPut db id clock = some (task, intent, evidence, driver)) ∧
          intent.driverId = driverId ∧ intent.storageKey = storageKey
  | .cleanupUpload id _ driverId storageKey _, now =>
      ∃ clock task intent driver,
        ReadBefore now (fun db => loadUploadCleanup db id clock = some (task, intent, driver)) ∧
          intent.driverId = driverId ∧ intent.storageKey = storageKey

theorem loadEntry_eq_some {db : Database} {directoryId filesystemId : Identity} {name : Text} {entry : EntryRow}
    (h : loadEntry db directoryId name = some (filesystemId, entry)) :
    db.tree.entries.lookup (directoryId, name) = some entry ∧ ∃ directory,
      db.tree.directories.lookup directoryId = some directory ∧ directory.state = .active ∧
        directory.filesystemId = filesystemId := by
  unfold loadEntry at h
  split at h
  · rename_i found directory hentry hdirectory
    split_ifs at h with hactive
    cases h
    exact ⟨hentry, directory, hdirectory, hactive, rfl⟩
  · cases h

/-- A handler that keeps every promise, and whose successful answer satisfies `success`. -/
def KeepsTo (failed : Identity → Nat → Option Nat → Instant → Prop) (prims : Primitives)
    (success : Receipt → Instant → Prop) (handler : Handler) (now : Instant) : Prop :=
  handler.Promises (OriginUnder failed prims) EffectOrigin
    (fun response last => ∀ receipt, response = .ok receipt → success receipt last) now

/-- A handler that keeps every promise, whatever it answers. -/
def Keeps (failed : Identity → Nat → Option Nat → Instant → Prop) (prims : Primitives) (handler : Handler)
    (now : Instant) : Prop := KeepsTo failed prims (fun _ _ => True) handler now

/-! ### Planners only read -/

section ReadOnly

variable {μ ρ ε ι : Type}

theorem readOnly_query {α : Type} (find : Database → α) : (Program.query find : Program Database μ ρ ε ι α).ReadOnly :=
  .read fun _ => .done _

theorem readOnly_loadVerifiedEntries (prims : Primitives) (id : Identity) (row : DirectoryRow) :
    (loadVerifiedEntries prims id row : Program Database μ ρ ε ι _).ReadOnly := by
  apply (readOnly_query _).bind
  intro stored
  cases directoryMerkleRoot prims (stored.map StoredEntry.entry) with
  | error error => exact .done _
  | ok currentRoot =>
      dsimp only
      split_ifs
      · exact .done _
      · apply Program.ReadOnly.bind
        · apply (readOnly_query _).bind
          intro found
          cases found with
          | none => exact .done _
          | some current =>
              dsimp only
              split_ifs
              · exact .done _
              · exact .done _
        · intro planning
          exact .done _

theorem readOnly_walkAncestors (prims : Primitives) (filesystemId : Identity) (edit : DirectEdit) (fuel : Nat)
    (current : Identity) (visited : List Identity) (replacement : Replacement) (directories : List DirectoryUpdate)
    (links : List LinkUpdate) :
    (walkAncestors prims filesystemId edit fuel current visited replacement directories links :
      Program Database μ ρ ε ι _).ReadOnly := by
  induction fuel generalizing current visited replacement directories links with
  | zero => exact .done _
  | succ fuel ih =>
      rw [walkAncestors]
      split_ifs
      · exact .done _
      apply (readOnly_query _).bind
      intro found
      cases found with
      | none => exact .done _
      | some directory =>
          dsimp only
          split_ifs
          · exact .done _
          apply (readOnly_loadVerifiedEntries _ _ _).bind
          intro result
          cases result with
          | error planning => exact .done _
          | ok stored =>
              dsimp only
              cases planLevel prims edit replacement current directory stored with
              | error planning => exact .done _
              | ok level =>
                  cases directory.parentId with
                  | none => exact .done _
                  | some parentId => exact ih _ _ _ _ _

theorem readOnly_planDirectoryRoots (prims : Primitives) (intent : PutIntentRow) :
    (planDirectoryRoots prims intent : Program Database μ ρ ε ι _).ReadOnly := by
  apply (readOnly_query _).bind
  intro file
  split_ifs
  · exact readOnly_walkAncestors _ _ _ _ _ _ _ _ _
  · exact .done _

theorem readOnly_loadAncestors (filesystemId : Identity) (fuel : Nat) (current : Identity)
    (chain : List LoadedDirectory) :
    (loadAncestors filesystemId fuel current chain : Program Database μ ρ ε ι _).ReadOnly := by
  induction fuel generalizing current chain with
  | zero => exact .done _
  | succ fuel ih =>
      rw [loadAncestors]
      split_ifs
      · exact .done _
      apply (readOnly_query _).bind
      intro found
      cases found with
      | none => exact .done _
      | some row =>
          dsimp only
          split_ifs
          · exact .done _
          · cases row.parentId with
            | none => exact .done _
            | some parent => exact ih _ _

theorem readOnly_loadListings (prims : Primitives) (rows : List LoadedDirectory) :
    (loadListings prims rows : Program Database μ ρ ε ι _).ReadOnly := by
  induction rows with
  | nil => exact .done _
  | cons row rows ih =>
      apply (readOnly_loadVerifiedEntries _ _ _).bind
      intro result
      cases result with
      | error planning => exact .done _
      | ok stored =>
          apply ih.bind
          intro result
          cases result with
          | error planning => exact .done _
          | ok listings => exact .done _

theorem readOnly_planEntryRenameRoots (prims : Primitives) (filesystemId : Identity) (target : RenameTarget)
    (revision : Nat) :
    (planEntryRenameRoots prims filesystemId target revision : Program Database μ ρ ε ι _).ReadOnly := by
  apply (readOnly_loadAncestors _ _ _ _).bind
  intro source
  cases source with
  | none => exact .done _
  | some sourceChain =>
      apply (readOnly_loadAncestors _ _ _ _).bind
      intro destination
      cases destination with
      | none => exact .done _
      | some destinationChain =>
          dsimp only
          split_ifs
          · exact .done _
          · apply (readOnly_loadListings _ _).bind
            intro listings
            cases listings with
            | error planning => exact .done _
            | ok listings => exact .done _

end ReadOnly

/-! ### Steps of a handler -/

section Keeps

variable {failed : Identity → Nat → Option Nat → Instant → Prop} {prims : Primitives}
  {success : Receipt → Instant → Prop} {now : Instant}

theorem keeps_done {response : Response} (h : ∀ receipt, response = .ok receipt → success receipt now) :
    KeepsTo failed prims success (.done response) now := h

theorem keeps_any (response : Response) : Keeps failed prims (.done response) now := fun _ _ => trivial

theorem keeps_failure (message : String) : KeepsTo failed prims success (.done (.failure message)) now :=
  keeps_done fun _ hok => by cases hok

theorem keeps_reject (status : Nat) (message : String) : KeepsTo failed prims success (reject status message) now :=
  keeps_done fun _ hok => by cases hok

theorem keeps_check {condition : Bool} {status : Nat} {message : String} {next : Handler}
    (h : condition = true → KeepsTo failed prims success next now) : KeepsTo failed prims success (check condition status message next) now := by
  unfold check
  split_ifs with hcondition
  · exact h hcondition
  · exact keeps_reject _ _

theorem keeps_read {next : Database → Handler} (h : ∀ later, now.Before later → KeepsTo failed prims success (next later.state) later) :
    KeepsTo failed prims success (.read next) now := h

theorem keeps_write {mutation : Mutation} {next : Option Bool → Handler}
    (horigin : ∀ later, now.Before later → OriginUnder failed prims mutation later)
    (hnext : ∀ reply later, now.Before later → KeepsTo failed prims success (next reply) later) :
    KeepsTo failed prims success (.write mutation next) now :=
  fun later hlater => ⟨horigin later hlater, fun reply => hnext reply later hlater⟩

theorem keeps_call {effect : Effect} {next : Answer → Handler}
    (horigin : ∀ later, now.Before later → EffectOrigin effect later)
    (hnext : ∀ answer later, now.Before later → KeepsTo failed prims success (next answer) later) :
    KeepsTo failed prims success (.call effect next) now :=
  fun later hlater => ⟨horigin later hlater, fun answer => hnext answer later hlater⟩

theorem keeps_checkChild {content : EntryContent} {test : Database → Identity → Bool} {message : String}
    {next : Handler} (h : ∀ later, now.Before later → KeepsTo failed prims success next later) :
    KeepsTo failed prims success (checkChild content test message next) now := by
  cases content with
  | file fileId versionId sizeBytes dataRoot metadataRoot => exact h now (.refl _)
  | directory child dataRoot => exact keeps_read fun later hlater => keeps_check fun _ => h later hlater

theorem ReadBefore.later {observed : Database → Prop} {later : Instant} (h : ReadBefore now observed)
    (hlater : now.Before later) : ReadBefore later observed := by
  obtain ⟨past, hpast, hobserved⟩ := h
  exact ⟨past, hpast.trans hlater, hobserved⟩

theorem readBefore_self {observed : Database → Prop} {later : Instant} (h : observed now.state)
    (hlater : now.Before later) : ReadBefore later observed := ⟨now, hlater, h⟩

/-- A planner that only reads hands over its plan, with the reads it came from. -/
theorem keeps_plan {planner : Planner} {next : Planning → Handler} (hreads : planner.ReadOnly)
    (hnext : ∀ planning later, now.Before later → (∀ plan, planning = .planned plan → PlannedBefore planner plan later) →
      KeepsTo failed prims success (next planning) later) : KeepsTo failed prims success (planner >>= next) now := by
  apply Program.Promises.bind
  apply (hreads.promises now).mono
  intro planning later hlater hyields
  apply hnext planning later hlater
  intro plan hplan
  rw [hplan] at hyields
  exact ⟨now, later, .refl _, hyields⟩

theorem PlannedBefore.later {planner : Planner} {plan : RootPlan} {later : Instant} (h : PlannedBefore planner plan now)
    (hlater : now.Before later) : PlannedBefore planner plan later := by
  obtain ⟨first, last, hlast, hyields⟩ := h
  exact ⟨first, last, hlast.trans hlater, hyields⟩

theorem keeps_rebase {planner : Planner} {batch : RootPlan → Mutation} {replay : Database → Option Response}
    {precondition omitted : String} (hreads : planner.ReadOnly)
    (hreplay : ∀ later response receipt, now.Before later → replay later.state = some response →
      response = .ok receipt → success receipt later)
    (hbatch : ∀ plan later, now.Before later → PlannedBefore planner plan later → OriginUnder failed prims (batch plan) later)
    (attempts : Nat) : KeepsTo failed prims success (rebase planner batch replay precondition omitted attempts) now := by
  induction attempts generalizing now with
  | zero => exact keeps_reject _ _
  | succ attempts ih =>
      apply keeps_plan hreads
      intro planning later hlater hplan
      have hagain : ∀ last, later.Before last → KeepsTo failed prims success
          (rebase planner batch replay precondition omitted attempts) last := fun last hlast => ih
            (fun final response receipt hfinal => hreplay final response receipt ((hlater.trans hlast).trans hfinal))
            fun plan final hfinal => hbatch plan final ((hlater.trans hlast).trans hfinal)
      cases planning with
      | failed error => exact keeps_failure _
      | contended => exact hagain later (.refl _)
      | preconditionChanged => exact keeps_reject _ _
      | planned plan =>
          apply keeps_write
          · intro last hlast
            exact hbatch plan last (hlater.trans hlast) ((hplan plan rfl).later hlast)
          · intro reply last hlast
            apply keeps_read
            intro final hfinal
            cases hresponse : replay final.state with
            | some response =>
                exact keeps_done fun receipt hok =>
                  hreplay final response receipt ((hlater.trans hlast).trans hfinal) hresponse hok
            | none => exact keeps_check fun _ => hagain final (hlast.trans hfinal)

/-- The answer is what the handler's replay query found before. -/
def Replays (respond : Database → Option Response) (receipt : Receipt) (now : Instant) : Prop :=
  ReadBefore now fun db => respond db = some (.ok receipt)

theorem keeps_replay {respond : Database → Option Response} {response : Response}
    (h : ReadBefore now fun db => respond db = some response) :
    KeepsTo failed prims (Replays respond) (.done response) now := by
  apply keeps_done
  intro receipt hok
  rw [hok] at h
  exact h

theorem keeps_replay_self {respond : Database → Option Response} {response : Response}
    (h : respond now.state = some response) : KeepsTo failed prims (Replays respond) (.done response) now :=
  keeps_replay ⟨now, .refl _, h⟩

theorem replays_of_replay {respond : Database → Option Response} {later : Instant} {response : Response}
    {receipt : Receipt} (h : respond later.state = some response) (hok : response = .ok receipt) :
    Replays respond receipt later := ⟨later, .refl _, hok ▸ h⟩

theorem KeepsTo.keeps {handler : Handler} (h : KeepsTo failed prims success handler now) : Keeps failed prims handler now :=
  h.mono fun _ _ _ _ _ _ => trivial

/-! ### Handlers -/

variable (prims) (token : AuthenticatedToken)

/-- `replay_response` to a preparation, if its key is known. -/
def prepareResponse (token : AuthenticatedToken) (request : PrepareRequest) (db : Database) : Option Response :=
  (loadPreparedIntent db token.principalId request.directoryId request.idempotencyKey).map fun found =>
    replayResponse found request.requestSha256

theorem keeps_prepare (request : PrepareRequest) :
    KeepsTo failed prims (Replays (prepareResponse token request)) (prepare prims token request) now := by
  apply keeps_check
  intro hvalid
  apply keeps_read
  intro first _
  apply keeps_read
  intro second hsecond
  cases second.state.authorizeContext token request.directoryId _ with
  | none => exact keeps_reject _ _
  | some context =>
      cases hexisting : loadPreparedIntent first.state token.principalId request.directoryId
          request.idempotencyKey with
      | some found => exact keeps_replay (readBefore_self (by rw [prepareResponse, hexisting]; rfl) hsecond)
      | none =>
          apply keeps_read
          intro third _
          cases htarget : preparedTarget request third.state with
          | none => exact keeps_reject _ _
          | some target =>
              apply keeps_read
              intro clock hclock
              refine keeps_write ?_ ?_
              · intro later hlater
                exact ⟨token, request, context, target, clock.state.now, rfl, hvalid, readBefore_self rfl hlater,
                  readBefore_self htarget (hclock.trans hlater)⟩
              intro reply last _
              apply keeps_read
              intro final _
              cases hfound : loadPreparedIntent final.state token.principalId request.directoryId
                  request.idempotencyKey with
              | some found => exact keeps_replay_self (by rw [prepareResponse, hfound]; rfl)
              | none =>
                  dsimp only
                  split_ifs
                  · exact keeps_reject _ _
                  · exact keeps_reject _ _

theorem keeps_commitAttempts (request : CommitRequest) (intent : PutIntentRow) (attempts : Nat)
    (hintent : ReadBefore now fun db => db.journal.putIntents.lookup request.intentId = some intent)
    (hinteger : validInteger request.proof.encodedBytes = true)
    (hencoded : expectedEncodedBytes intent.description = some request.proof.encodedBytes) :
    KeepsTo failed prims (Replays fun db => putReceiptResponse db request.intentId request.proof.commitSha256)
      (commitAttempts prims token request intent attempts) now := by
  induction attempts generalizing now with
  | zero => exact keeps_reject _ _
  | succ attempts ih =>
      apply keeps_plan (readOnly_planDirectoryRoots _ _)
      intro planning later hlater hplan
      have hread := hintent.later hlater
      cases planning with
      | failed error => exact keeps_failure _
      | contended => exact ih hread
      | preconditionChanged => exact keeps_reject _ _
      | planned plan =>
          apply keeps_read
          intro clock hclock
          apply keeps_write
          · intro last hlast
            exact ⟨intent, hread.later (hclock.trans hlast), hinteger, hencoded,
              (hplan plan rfl).later (hclock.trans hlast)⟩
          · intro reply last hlast
            apply keeps_read
            intro final hfinal
            cases hreceipt : putReceiptResponse final.state request.intentId request.proof.commitSha256 with
            | some response => exact keeps_replay_self hreceipt
            | none =>
                apply keeps_check
                intro _
                apply keeps_read
                intro again hagain
                cases loadIntent again.state request.intentId token.principalId with
                | none => exact keeps_reject _ _
                | some current =>
                    apply keeps_check
                    intro _
                    exact ih (hread.later (((hclock.trans hlast).trans hfinal).trans hagain))

theorem keeps_commit (request : CommitRequest) :
    KeepsTo failed prims (Replays fun db => putReceiptResponse db request.intentId request.proof.commitSha256)
      (commit prims token request) now := by
  apply keeps_check
  intro hvalid
  have hinteger : validInteger request.proof.encodedBytes = true := by
    simp only [validCommitRequest, Bool.and_eq_true] at hvalid
    exact hvalid.1.1.1.1.2
  apply keeps_read
  intro first hfirst
  cases hload : loadIntent first.state request.intentId token.principalId with
  | none => exact keeps_reject _ _
  | some intent =>
      have hintent : first.state.journal.putIntents.lookup request.intentId = some intent :=
        (Option.filter_eq_some_iff.mp hload).1
      apply keeps_read
      intro second hsecond
      cases hreceipt : putReceiptResponse second.state request.intentId request.proof.commitSha256 with
      | some response => exact keeps_replay_self hreceipt
      | none =>
          apply keeps_read
          intro clock hclock
          apply keeps_check
          intro _
          cases hexpected : expectedEncodedBytes intent.description with
          | none => exact keeps_reject _ _
          | some expected =>
              apply keeps_check
              intro hsize
              have hencoded : expectedEncodedBytes intent.description = some request.proof.encodedBytes := by
                rw [hexpected, beq_iff_eq.mp hsize]
              apply keeps_read
              intro third hthird
              apply keeps_check
              intro _
              refine keeps_call (fun _ _ => trivial) ?_
              intro answer fourth hfourth
              split_ifs
              · exact keeps_failure _
              apply keeps_read
              intro fifth hfifth
              refine keeps_write (fun _ _ => trivial) ?_
              intro reply sixth hsixth
              apply keeps_read
              intro last hlast
              cases last.state.journal.uploadEvidence.lookup request.intentId with
              | none =>
                  dsimp only
                  split_ifs
                  · exact keeps_reject _ _
                  apply keeps_read
                  intro final _
                  cases loadIntent final.state request.intentId token.principalId with
                  | none => exact keeps_reject _ _
                  | some current => exact keeps_check fun _ => keeps_failure _
              | some evidence =>
                  apply keeps_check
                  intro _
                  refine keeps_commitAttempts prims token request intent _ ?_ hinteger hencoded
                  exact readBefore_self hintent (hsecond.trans (hclock.trans (hthird.trans (hfourth.trans
                    (hfifth.trans (hsixth.trans hlast))))))

theorem keeps_create (request : CreateRequest) :
    KeepsTo failed prims
      (Replays fun db => createReceiptResponse db token.id request.idempotencyKey request.requestSha256)
      (create prims token request) now := by
  apply keeps_check
  intro _
  apply keeps_check
  intro _
  apply keeps_read
  intro first _
  apply keeps_check
  intro _
  apply keeps_read
  intro second _
  cases hreceipt : createReceiptResponse second.state token.id request.idempotencyKey request.requestSha256 with
  | some response => exact keeps_replay_self hreceipt
  | none =>
      apply keeps_read
      intro third _
      cases (third.state.tree.directories.lookup request.parentDirectoryId).filter fun row => row.state == .active with
      | none => exact keeps_reject _ _
      | some parent =>
          apply keeps_read
          intro fourth _
          apply keeps_check
          intro _
          cases hempty : directoryMerkleRoot prims [] with
          | error error => exact keeps_failure _
          | ok emptyRoot =>
              apply keeps_read
              intro clock _
              refine keeps_rebase (readOnly_walkAncestors _ _ _ _ _ _ _ _ _)
                (fun _ _ _ _ hresponse hok => replays_of_replay hresponse hok) ?_ _
              intro plan later _ hplan
              exact ⟨hempty, hplan⟩

theorem keeps_remove (request : RemoveRequest) :
    KeepsTo failed prims
      (Replays fun db => removeReceiptResponse db token.id request.idempotencyKey request.requestSha256)
      (remove prims token request) now := by
  apply keeps_check
  intro _
  apply keeps_read
  intro checked hchecked
  apply keeps_check
  intro hauthorized
  apply keeps_read
  intro second hsecond
  cases hreceipt : removeReceiptResponse second.state token.id request.idempotencyKey request.requestSha256 with
  | some response => exact keeps_replay_self hreceipt
  | none =>
      apply keeps_read
      intro loaded hloaded
      cases hload : loadEntry loaded.state request.directoryId request.name with
      | none => exact keeps_reject _ _
      | some found =>
          obtain ⟨filesystemId, entry⟩ := found
          apply keeps_check
          intro hrevision
          split_ifs
          · exact keeps_failure _
          apply keeps_checkChild
          intro fourth hfourth
          apply keeps_checkChild
          intro fifth hfifth
          apply keeps_read
          intro clock hclock
          refine keeps_rebase (readOnly_walkAncestors _ _ _ _ _ _ _ _ _)
            (fun _ _ _ _ hresponse hok => replays_of_replay hresponse hok) ?_ _
          intro plan later hlater hplan
          have hafter := hfourth.trans (hfifth.trans (hclock.trans hlater))
          exact
            { checked := readBefore_self rfl (hsecond.trans (hloaded.trans hafter))
              authorized := hauthorized
              loaded := readBefore_self hload hafter
              revision := beq_iff_eq.mp hrevision
              planned := hplan }

theorem keeps_rename (request : RenameRequest) :
    KeepsTo failed prims
      (Replays fun db => renameReceiptResponse db token.id request.idempotencyKey request.requestSha256)
      (rename prims token request) now := by
  apply keeps_check
  intro hvalid
  apply keeps_read
  intro source hsource
  apply keeps_check
  intro hsourceAuthorized
  apply keeps_read
  intro destination hdestination
  apply keeps_check
  intro hdestinationAuthorized
  apply keeps_read
  intro third hthird
  cases hreceipt : renameReceiptResponse third.state token.id request.idempotencyKey request.requestSha256 with
  | some response => exact keeps_replay_self hreceipt
  | none =>
      apply keeps_read
      intro loaded hloaded
      cases hload : loadEntry loaded.state request.target.sourceDirectoryId request.target.sourceName with
      | none => exact keeps_reject _ _
      | some found =>
          obtain ⟨filesystemId, entry⟩ := found
          apply keeps_check
          intro hrevision
          apply keeps_read
          intro fifth hfifth
          cases (fifth.state.tree.directories.lookup request.target.destinationDirectoryId).filter fun row =>
              row.state == .active with
          | none => exact keeps_reject _ _
          | some found =>
              apply keeps_check
              intro _
              split_ifs
              · exact keeps_failure _
              apply keeps_read
              intro sixth hsixth
              apply keeps_check
              intro _
              apply keeps_checkChild
              intro seventh hseventh
              apply keeps_read
              intro clock hclock
              refine keeps_rebase (readOnly_planEntryRenameRoots _ _ _ _)
                (fun _ _ _ _ hresponse hok => replays_of_replay hresponse hok) ?_ _
              intro plan later hlater hplan
              have hafter := hfifth.trans (hsixth.trans (hseventh.trans (hclock.trans hlater)))
              have hbefore := hthird.trans (hloaded.trans hafter)
              simp only [Bool.and_eq_true, Bool.not_eq_true', Bool.and_eq_false_iff, beq_eq_false_iff_ne] at hvalid
              exact
                { distinct := fun hsame => hvalid.2.elim (fun hne => hne hsame.1) fun hne => hne hsame.2
                  sourceChecked := readBefore_self rfl (hdestination.trans hbefore)
                  sourceAuthorized := hsourceAuthorized
                  destinationChecked := readBefore_self rfl hbefore
                  destinationAuthorized := hdestinationAuthorized
                  loaded := readBefore_self hload hafter
                  revision := beq_iff_eq.mp hrevision
                  planned := hplan }

theorem keeps_allDriversEnabled (drivers : List Text) {next : Handler}
    (hnext : ∀ later, now.Before later → KeepsTo failed prims success next later) :
    KeepsTo failed prims success (allDriversEnabled drivers next) now := by
  induction drivers generalizing now with
  | nil => exact hnext now (.refl _)
  | cons driver drivers ih =>
      apply keeps_read
      intro later hlater
      apply keeps_check
      intro _
      exact ih fun last hlast => hnext last (hlater.trans hlast)

theorem keeps_issue (request : IssueRequest) :
    KeepsTo failed prims (Replays fun db => issueResponse db token request) (issue token request) now := by
  apply keeps_check
  intro _
  apply keeps_read
  intro first _
  apply keeps_check
  intro _
  apply keeps_read
  intro clock _
  apply keeps_check
  intro _
  -- the three queries of `scope_narrows_parent`
  apply keeps_read
  intro snapshot _
  apply keeps_check
  intro _
  apply keeps_read
  intro actions _
  apply keeps_check
  intro _
  apply keeps_read
  intro drivers _
  apply keeps_check
  intro _
  apply keeps_read
  intro replay _
  cases hreceipt : issueResponse replay.state token request with
  | some response => exact keeps_replay_self hreceipt
  | none =>
      apply keeps_allDriversEnabled
      intro later _
      refine keeps_write (fun _ _ => trivial) ?_
      intro reply last _
      apply keeps_read
      intro final _
      cases hfinal : issueResponse final.state token request with
      | some response => exact keeps_replay_self hfinal
      | none => exact keeps_reject _ _

theorem keeps_revoke (request : RevokeRequest) : Keeps failed prims (revoke token request) now := by
  apply keeps_check
  intro _
  apply keeps_check
  intro _
  apply keeps_read
  intro first _
  cases (first.state.authority.tokens.lookup request.targetTokenId).filter fun row => row.sealedAt.isSome with
  | none => exact keeps_reject _ _
  | some target =>
      apply keeps_check
      intro _
      apply keeps_read
      intro second _
      apply keeps_check
      intro _
      apply keeps_read
      intro third _
      cases revokeResponse third.state token request with
      | some response => exact keeps_any _
      | none =>
          apply keeps_check
          intro _
          apply keeps_read
          intro clock _
          refine keeps_write (fun _ _ => trivial) ?_
          intro reply last _
          apply keeps_read
          intro final _
          cases revokeResponse final.state token request with
          | some response => exact keeps_any _
          | none => exact keeps_reject _ _

theorem keeps_replaceAcl (request : AclRequest) :
    KeepsTo failed prims (Replays fun db =>
      policyReceiptResponse db .aclReplace token.id request.idempotencyKey request.requestSha256)
      (replaceAcl token request) now := by
  apply keeps_check
  intro _
  cases resolveAclScope request with
  | none => exact keeps_reject _ _
  | some scope =>
      cases aclSubject request with
      | none => exact keeps_reject _ _
      | some subject =>
          apply keeps_check
          intro _
          apply keeps_read
          intro first _
          cases hreceipt : policyReceiptResponse first.state .aclReplace token.id request.idempotencyKey
              request.requestSha256 with
          | some response => exact keeps_replay_self hreceipt
          | none =>
              apply keeps_read
              intro second _
              apply keeps_check
              intro _
              apply keeps_read
              intro third _
              cases loadPolicy third.state request.directoryId Authority.aclRevisions with
              | none => exact keeps_reject _ _
              | some revision =>
                  apply keeps_read
                  intro fourth _
                  apply keeps_check
                  intro _
                  apply keeps_check
                  intro _
                  apply keeps_read
                  intro count _
                  apply keeps_read
                  intro clock _
                  refine keeps_write (fun _ _ => trivial) ?_
                  intro reply last _
                  apply keeps_read
                  intro final _
                  cases hfinal : policyReceiptResponse final.state .aclReplace token.id request.idempotencyKey
                      request.requestSha256 with
                  | some response => exact keeps_replay_self hfinal
                  | none => exact keeps_reject _ _

theorem keeps_replacePlacements (request : PlacementRequest) :
    KeepsTo failed prims (Replays fun db =>
      policyReceiptResponse db .placementReplace token.id request.idempotencyKey request.requestSha256)
      (replacePlacements token request) now := by
  apply keeps_check
  intro _
  cases validPlacement request with
  | none => exact keeps_reject _ _
  | some driverId =>
      apply keeps_read
      intro first _
      cases hreceipt : policyReceiptResponse first.state .placementReplace token.id request.idempotencyKey
          request.requestSha256 with
      | some response => exact keeps_replay_self hreceipt
      | none =>
          apply keeps_read
          intro second _
          apply keeps_check
          intro _
          apply keeps_read
          intro third _
          apply keeps_check
          intro _
          apply keeps_read
          intro fourth _
          apply keeps_check
          intro _
          apply keeps_read
          intro fifth _
          cases loadPolicy fifth.state request.directoryId Authority.placementRevisions with
          | none => exact keeps_reject _ _
          | some revision =>
              apply keeps_check
              intro _
              apply keeps_read
              intro sixth _
              cases hdesired : desiredMount sixth.state request.directoryId driverId with
              | none => exact keeps_reject _ _
              | some mount =>
                  apply keeps_read
                  intro seventh hseventh
                  apply keeps_check
                  intro _
                  apply keeps_read
                  intro count hcount
                  apply keeps_read
                  intro clock hclock
                  refine keeps_write ?_ ?_
                  · intro later hlater
                    show ReadBefore later fun db => desiredMount db request.directoryId driverId = some mount
                    exact readBefore_self hdesired (hseventh.trans (hcount.trans (hclock.trans hlater)))
                  intro reply last _
                  apply keeps_read
                  intro final _
                  cases hfinal : policyReceiptResponse final.state .placementReplace token.id request.idempotencyKey
                      request.requestSha256 with
                  | some response => exact keeps_replay_self hfinal
                  | none => exact keeps_reject _ _

variable {prims}

theorem keeps_failLocation {id : Identity} {fencingToken clock : Nat} {blocked : Bool} {next : Handler}
    (hnext : ∀ later, now.Before later → Keeps anyFailure prims next later) :
    Keeps anyFailure prims (failLocation id fencingToken clock blocked next) now :=
  keeps_write (fun _ _ => trivial) fun _ later hlater => hnext later hlater

theorem keeps_failAbandonedPut {id : Identity} {fencingToken clock : Nat} {blocked : Bool} {next : Handler}
    (hnext : ∀ later, now.Before later → Keeps failed prims next later) :
    Keeps failed prims (failAbandonedPut id fencingToken clock blocked next) now :=
  keeps_write (fun _ _ => trivial) fun _ later hlater => hnext later hlater

theorem keeps_deleteOne {clock : Nat} {next : Handler} (hclock : ReadBefore now fun db => db.now = clock)
    (hnext : ∀ later, now.Before later → Keeps anyFailure prims next later) :
    Keeps anyFailure prims (deleteOne clock next) now := by
  apply keeps_read
  intro first hfirst
  split
  · exact hnext first hfirst
  rename_i id _ _
  refine keeps_write (fun _ _ => trivial) ?_
  intro claimed second hsecond
  split_ifs
  · exact hnext second (hfirst.trans hsecond)
  apply keeps_read
  intro third hthird
  split
  · exact hnext third ((hfirst.trans hsecond).trans hthird)
  apply keeps_read
  intro fourth hfourth
  have hbefore := ((hfirst.trans hsecond).trans hthird).trans hfourth
  have hcontinue : ∀ later, fourth.Before later → Keeps anyFailure prims next later := fun later hlater =>
    hnext later (hbefore.trans hlater)
  split
  · exact keeps_failLocation hcontinue
  rename_i task driver hload
  split
  · exact keeps_failLocation hcontinue
  apply keeps_call
  · intro later hlater
    exact ⟨clock, task, driver, hclock.later (hbefore.trans hlater), readBefore_self hload hlater, rfl, rfl⟩
  intro answer fifth hfifth
  have hlast : ∀ later, fifth.Before later → Keeps anyFailure prims next later := fun later hlater =>
    hcontinue later (hfifth.trans hlater)
  cases answer with
  | done =>
      refine keeps_write (fun _ _ => trivial) ?_
      intro completed sixth hsixth
      cases completed with
      | none => exact keeps_failure _
      | some committed =>
          dsimp only
          split_ifs
          · exact hlast sixth hsixth
          · exact keeps_failLocation fun later hlater => hlast later (hsixth.trans hlater)
  | retry => exact keeps_failLocation hlast
  | blocked => exact keeps_failLocation hlast

theorem keeps_deleteOneAbandonedPut {clock : Nat} {next : Handler}
    (hnext : ∀ later, now.Before later → Keeps failed prims next later) :
    Keeps failed prims (deleteOneAbandonedPut clock next) now := by
  apply keeps_read
  intro first hfirst
  split
  · exact hnext first hfirst
  rename_i id _ _
  refine keeps_write (fun _ _ => trivial) ?_
  intro claimed second hsecond
  split_ifs
  · exact hnext second (hfirst.trans hsecond)
  apply keeps_read
  intro third hthird
  split
  · exact hnext third ((hfirst.trans hsecond).trans hthird)
  apply keeps_read
  intro fourth hfourth
  have hbefore := ((hfirst.trans hsecond).trans hthird).trans hfourth
  have hcontinue : ∀ later, fourth.Before later → Keeps failed prims next later := fun later hlater =>
    hnext later (hbefore.trans hlater)
  split
  · exact keeps_failAbandonedPut hcontinue
  rename_i task intent evidence driver hload
  split
  · exact keeps_failAbandonedPut hcontinue
  apply keeps_call
  · intro later hlater
    exact ⟨clock, task, intent, evidence, driver, readBefore_self hload hlater, rfl, rfl⟩
  intro answer fifth hfifth
  have hlast : ∀ later, fifth.Before later → Keeps failed prims next later := fun later hlater =>
    hcontinue later (hfifth.trans hlater)
  cases answer with
  | done => exact keeps_write (fun _ _ => trivial) fun _ later hlater => hlast later hlater
  | retry => exact keeps_failAbandonedPut hlast
  | blocked => exact keeps_failAbandonedPut hlast

theorem keeps_cleanupOneUpload {clock : Nat} {next : Handler}
    (hnext : ∀ later, now.Before later → Keeps failed prims next later) : Keeps failed prims (cleanupOneUpload clock next) now := by
  apply keeps_read
  intro first hfirst
  split
  · exact hnext first hfirst
  rename_i id _ _
  refine keeps_write (fun _ _ => trivial) ?_
  intro claimed second hsecond
  split_ifs
  · exact hnext second (hfirst.trans hsecond)
  apply keeps_read
  intro third hthird
  have hbefore := (hfirst.trans hsecond).trans hthird
  split
  · exact hnext third hbefore
  rename_i task intent driver hload
  have hfailed : ∀ later, third.Before later → Keeps failed prims (.write (.uploadFinish id task.fencingToken
      (some (clock + retryDelay task.fencingToken task.fencingToken)) clock) fun _ => next) later := by
    intro later hlater
    exact keeps_write (fun _ _ => trivial) fun _ last hlast => hnext last ((hbefore.trans hlater).trans hlast)
  split
  · exact hfailed third (.refl _)
  apply keeps_call
  · intro later hlater
    exact ⟨clock, task, intent, driver, readBefore_self hload hlater, rfl, rfl⟩
  intro answer fourth hfourth
  split_ifs
  · exact keeps_write (fun _ _ => trivial) fun _ last hlast => hnext last ((hbefore.trans hfourth).trans hlast)
  · exact hfailed fourth hfourth

theorem keeps_runLifecycle {clock : Nat} (hclock : ReadBefore now fun db => db.now = clock) :
    Keeps anyFailure prims (runLifecycle clock) now := by
  refine keeps_write (fun _ _ => trivial) ?_
  intro _ marked hmarked
  refine keeps_write (fun _ _ => trivial) ?_
  intro _ created hcreated
  apply keeps_deleteOne (hclock.later (hmarked.trans hcreated))
  intro later _
  apply keeps_deleteOneAbandonedPut
  intro last _
  apply keeps_cleanupOneUpload
  intro final _
  exact keeps_any _

/-! ### Transfers -/

variable (prims)

theorem keeps_grantPutDriver (intentId : Identity) : Keeps failed prims (grantPutDriver token intentId) now := by
  apply keeps_read
  intro first _
  split
  · exact keeps_reject _ _
  apply keeps_read
  intro second _
  apply keeps_check
  intro _
  split
  · exact keeps_failure _
  apply keeps_check
  intro _
  dsimp only
  split_ifs
  · refine keeps_write (fun _ _ => trivial) ?_
    intro reply _ _
    split_ifs
    · exact keeps_failure _
    · exact keeps_any _
  · exact keeps_any _

theorem keeps_grantPutMultipart (intentId : Identity) (uploadId : Text) :
    Keeps failed prims (grantPutMultipart token intentId uploadId) now := by
  apply keeps_read
  intro first _
  split
  · exact keeps_reject _ _
  apply keeps_read
  intro second _
  apply keeps_check
  intro _
  apply keeps_check
  intro _
  split
  · exact keeps_failure _
  apply keeps_check
  intro _
  refine keeps_write (fun _ _ => trivial) ?_
  intro bound _ _
  split_ifs
  · exact keeps_failure _
  · exact keeps_check fun _ => keeps_any _

theorem keeps_planDownload (versionId leaseId : Identity) : Keeps failed prims (planDownload token versionId leaseId) now := by
  apply keeps_check
  intro _
  apply keeps_read
  intro first _
  split
  · exact keeps_reject _ _
  apply keeps_read
  intro second _
  apply keeps_check
  intro _
  apply keeps_read
  intro third _
  apply keeps_check
  intro _
  apply keeps_read
  intro clock _
  refine keeps_write (fun _ _ => trivial) ?_
  intro leased _ _
  split_ifs
  · exact keeps_failure _
  · exact keeps_check fun _ => keeps_any _

theorem keeps_completeRead (leaseId : Identity) : Keeps failed prims (completeRead token leaseId) now := by
  apply keeps_check
  intro _
  apply keeps_read
  intro clock _
  refine keeps_write (fun _ _ => trivial) ?_
  intro completed _ _
  split_ifs
  · exact keeps_failure _
  · exact keeps_check fun _ => keeps_any _

theorem keeps_completeReads (leaseIds : List Identity) : Keeps failed prims (completeReads token leaseIds) now := by
  apply keeps_check
  intro _
  apply keeps_check
  intro _
  apply keeps_read
  intro first _
  apply keeps_check
  intro _
  apply keeps_read
  intro clock _
  refine keeps_write (fun _ _ => trivial) ?_
  intro completed _ _
  split_ifs
  · exact keeps_failure _
  · exact keeps_any _

theorem keeps_loadOwnedDeletion {taskId : Option Identity} {clock : Nat}
    {next : Option (Identity × PutDeleteTaskRow × PutIntentRow) → Handler}
    (hnext : ∀ task later, now.Before later → Keeps failed prims (next task) later) :
    Keeps failed prims (loadOwnedDeletion token taskId clock next) now := by
  apply keeps_read
  intro first hfirst
  split
  · exact hnext none first hfirst
  apply keeps_read
  intro second hsecond
  split_ifs
  · apply keeps_read
    intro third hthird
    exact hnext _ third ((hfirst.trans hsecond).trans hthird)
  · exact hnext none second (hfirst.trans hsecond)

theorem keeps_claimDeletion (leaseSeconds : Option Nat) : Keeps failed prims (claimDeletion token leaseSeconds) now := by
  apply keeps_check
  intro _
  apply keeps_read
  intro clock _
  apply keeps_loadOwnedDeletion
  intro owned later _
  cases owned with
  | some task => exact keeps_any _
  | none =>
      apply keeps_read
      intro second _
      split
      · exact keeps_any _
      refine keeps_write (fun _ _ => trivial) ?_
      intro claimed third _
      apply keeps_check
      intro _
      apply keeps_loadOwnedDeletion
      intro task last _
      cases task with
      | none => exact keeps_reject _ _
      | some task => exact keeps_any _

theorem keeps_revalidateDeletion (taskId incarnation : Identity) (fencingToken : Nat) (leaseSeconds : Option Nat) :
    Keeps failed prims (revalidateDeletion token taskId incarnation fencingToken leaseSeconds) now := by
  apply keeps_check
  intro _
  apply keeps_read
  intro clock _
  apply keeps_read
  intro first _
  apply keeps_check
  intro _
  refine keeps_write (fun _ _ => trivial) ?_
  intro rotated second _
  apply keeps_check
  intro _
  apply keeps_loadOwnedDeletion
  intro task last _
  cases task with
  | none => exact keeps_reject _ _
  | some task => exact keeps_check fun _ => keeps_any _

theorem keeps_completeDeletion (taskId incarnation : Identity) (fencingToken : Nat) :
    Keeps failed prims (completeDeletion token taskId incarnation fencingToken) now := by
  apply keeps_check
  intro _
  apply keeps_read
  intro first _
  apply keeps_check
  intro _
  apply keeps_read
  intro second _
  split
  · exact keeps_any _
  apply keeps_read
  intro clock _
  refine keeps_write (fun _ _ => trivial) ?_
  intro completed third _
  apply keeps_check
  intro _
  apply keeps_read
  intro last _
  split
  · exact keeps_reject _ _
  · exact keeps_check fun _ => keeps_any _

theorem keeps_failDeletion (taskId incarnation : Identity) (fencingToken : Nat) :
    Keeps failed prims (failDeletion token taskId incarnation fencingToken) now := by
  apply keeps_check
  intro _
  apply keeps_read
  intro first _
  apply keeps_check
  intro _
  apply keeps_read
  intro clock _
  refine keeps_write (fun _ _ => trivial) ?_
  intro failed second _
  apply keeps_check
  intro _
  apply keeps_read
  intro last _
  split
  · exact keeps_reject _ _
  · exact keeps_any _

theorem keeps_grantDeletion (taskId : Identity) : Keeps failed prims (grantDeletion token taskId) now := by
  apply keeps_read
  intro first _
  apply keeps_check
  intro _
  apply keeps_read
  intro second _
  split
  · exact keeps_reject _ _
  · exact keeps_any _

theorem keeps_handle (operation : Operation) : Keeps failed prims (operation.handle prims token) now := by
  cases operation with
  | prepare request => exact (keeps_prepare prims token request).keeps
  | commit request => exact (keeps_commit prims token request).keeps
  | create request => exact (keeps_create prims token request).keeps
  | remove request => exact (keeps_remove prims token request).keeps
  | rename request => exact (keeps_rename prims token request).keeps
  | issue request => exact (keeps_issue prims token request).keeps
  | revoke request => exact keeps_revoke prims token request
  | replaceAcl request => exact (keeps_replaceAcl prims token request).keeps
  | replacePlacements request => exact (keeps_replacePlacements prims token request).keeps
  | grantPutDriver intentId => exact keeps_grantPutDriver prims token intentId
  | grantPutMultipart intentId uploadId => exact keeps_grantPutMultipart prims token intentId uploadId
  | planDownload versionId leaseId => exact keeps_planDownload prims token versionId leaseId
  | completeRead leaseId => exact keeps_completeRead prims token leaseId
  | completeReads leaseIds => exact keeps_completeReads prims token leaseIds
  | claimDeletion leaseSeconds => exact keeps_claimDeletion prims token leaseSeconds
  | revalidateDeletion taskId incarnation fencingToken leaseSeconds =>
      exact keeps_revalidateDeletion prims token taskId incarnation fencingToken leaseSeconds
  | completeDeletion taskId incarnation fencingToken =>
      exact keeps_completeDeletion prims token taskId incarnation fencingToken
  | failDeletion taskId incarnation fencingToken =>
      exact keeps_failDeletion prims token taskId incarnation fencingToken
  | grantDeletion taskId => exact keeps_grantDeletion prims token taskId

/-- Every handler of the control plane submits and asks only what it has reason to. -/
theorem keeps_serve (request : Request) : Keeps anyFailure prims (serve prims request) now := by
  cases request with
  | client verifierSha256 operation =>
      apply keeps_read
      intro first _
      cases first.state.authenticate verifierSha256 with
      | none => exact keeps_reject _ _
      | some token => exact keeps_handle prims token operation
  | maintenance =>
      apply keeps_read
      intro clock hclock
      refine keeps_write (fun _ hlater => ⟨clock, hlater, rfl⟩) ?_
      intro _ second hsecond
      refine keeps_write (fun _ _ => trivial) ?_
      intro _ third hthird
      exact keeps_runLifecycle (readBefore_self rfl (hsecond.trans hthird))

end Keeps

/-! ### Runs -/

variable {prims : Primitives} {permit : Instant → Mutation → Prop} {start : Database} {system : ControlState}

theorem keeps_starts {program : Handler} (hstarts : (controlPlane prims).starts program) (now : Instant) :
    program.Promises (Origin prims) EffectOrigin (fun _ _ => True) now := by
  obtain ⟨request, rfl⟩ := hstarts
  exact (keeps_serve prims request).mono fun _ _ _ _ => trivial

/-- A property of the past that drift and every permitted batch with an origin preserve holds along every run. -/
theorem Reachable.guarded_invariant (inv : Instant → Prop)
    (hdrift : ∀ moment after, inv moment → Drift moment.state after → inv (moment.advance none after))
    (hcommit : ∀ moment mutation after, inv moment → Origin prims mutation moment → permit moment mutation →
      Committed moment.state after mutation → inv (moment.advance (some mutation) after))
    (hstart : inv ⟨start, []⟩) (hrun : Reachable prims permit start system) : inv system.toMoment := by
  apply Machine.guarded_invariant (fun _ => keeps_starts) hdrift _ hstart hrun
  intro moment mutation after reply hinv horigin hpermit hexecute
  exact hcommit moment mutation after hinv horigin hpermit (execute_committed hexecute)

theorem Reachable.committed (hrun : Reachable prims permit start system) {past : Instant} {mutation : Mutation}
    {after : Database} (hpast : (past.advance (some mutation) after).Before system.toMoment) :
    Origin prims mutation past ∧ permit past mutation ∧ Committed past.state after mutation := by
  obtain ⟨horigin, hpermit, _, hexecute⟩ := Machine.guard_of_committed (fun _ => keeps_starts) hrun hpast
  exact ⟨horigin, hpermit, execute_committed hexecute⟩

/-- A provider is asked to delete only what was safe to delete when the handler last looked. -/
theorem Reachable.effectOrigin (hrun : Reachable prims permit start system) {index : Nat} {effect : Effect}
    {next : Answer → Handler} (hthread : system.threads[index]? = some (.call effect next)) :
    EffectOrigin effect system.toMoment :=
  Machine.allow_of_called (Machine.faithful_of_runs (fun _ => keeps_starts) hrun) hthread

end Skydriver
