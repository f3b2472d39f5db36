import Skydriver.Control.Provenance

/-!
# Uploads and the objects they publish

A storage key belongs to one put intent, and only the publication of that intent records a location under it.  An
intent that expired or was abandoned stays so: whatever deletes its upload, no location has its storage key or will
ever have it.
-/

namespace Skydriver

/-! ### Put intents over time -/

/-- What may become of an intent: a prepared one may end, and one that ended stays as it is. -/
structure PutIntentRow.Evolves (old new : PutIntentRow) : Prop where
  same : ∃ state revision, new = { old with state, revision }
  final : old.state ≠ .prepared → new = old

theorem PutIntentRow.Evolves.refl (intent : PutIntentRow) : intent.Evolves intent :=
  ⟨⟨intent.state, intent.revision, rfl⟩, fun _ => rfl⟩

theorem PutIntentRow.Evolves.trans {first second third : PutIntentRow} (h : first.Evolves second)
    (h' : second.Evolves third) : first.Evolves third := by
  obtain ⟨state, revision, rfl⟩ := h.same
  obtain ⟨state', revision', rfl⟩ := h'.same
  refine ⟨⟨state', revision', rfl⟩, ?_⟩
  intro hended
  have hsame := h.final hended
  have hended' : ({ first with state, revision } : PutIntentRow).state ≠ .prepared := by rwa [hsame]
  rw [h'.final hended', hsame]

def IntentsEvolve (before after : Database) : Prop :=
  ∀ id old, before.journal.putIntents.lookup id = some old →
    ∃ new, after.journal.putIntents.lookup id = some new ∧ old.Evolves new

theorem IntentsEvolve.of_eq {before after : Database} (h : after.journal.putIntents = before.journal.putIntents) :
    IntentsEvolve before after := by
  intro id old hold
  exact ⟨old, by rw [h, hold], .refl old⟩

theorem IntentsEvolve.trans {first second third : Database} (h : IntentsEvolve first second)
    (h' : IntentsEvolve second third) : IntentsEvolve first third := by
  intro id old hold
  obtain ⟨middle, hmiddle, hfirst⟩ := h id old hold
  obtain ⟨new, hnew, hsecond⟩ := h' id middle hmiddle
  exact ⟨new, hnew, hfirst.trans hsecond⟩

theorem PutCommitted.putIntents {batch : PutCommitBatch} {intent : PutIntentRow} {db after : Database}
    (h : PutCommitted batch intent db after) : after.journal.putIntents = db.journal.putIntents.insert batch.intentId
      { intent with state := .committed, revision := intent.revision + 1 } := by
  obtain ⟨_, _, hpublish, hjournal⟩ := h.journal
  obtain ⟨_, _, rfl⟩ := Journal.publish_eq_some hpublish
  rw [hjournal]

theorem Committed.intentsEvolve {db after : Database} {mutation : Mutation} (h : Committed db after mutation) :
    IntentsEvolve db after := by
  rcases h.intents_cases with ⟨batch, _, hprepare⟩ | ⟨batch, intent, _, hcommit⟩ | ⟨now, _, hexpire⟩ | hsame
  · rcases executePutPrepare_eq_some hprepare with rfl | ⟨rfl, _, _, hnew, _⟩
    · exact .of_eq rfl
    · intro id old hold
      have hid : id ≠ batch.intentId := by
        rintro rfl
        rw [hnew] at hold
        cases hold
      exact ⟨old, by rw [Table.lookup_insert_eq, if_neg hid, hold], .refl old⟩
  · intro id old hold
    rw [hcommit.putIntents, Table.lookup_insert_eq]
    split_ifs with hid
    · rw [hid, hcommit.found] at hold
      cases hold
      exact ⟨_, rfl, ⟨_, _, rfl⟩, fun hended => absurd hcommit.prepared hended⟩
    · exact ⟨old, hold, .refl old⟩
  · obtain ⟨overdue, _, rfl, hoverdue⟩ := executeMaintenance_eq_some hexpire
    intro id old hold
    refine ⟨_, by rw [Table.lookup_mapRows, hold, Option.map_some], ?_⟩
    split_ifs with hid
    · obtain ⟨intent, hintent, hprepared⟩ := hoverdue id (List.contains_iff_mem.mp hid)
      rw [hold] at hintent
      cases hintent
      exact ⟨⟨_, _, rfl⟩, fun hended => absurd hprepared hended⟩
    · exact .refl old
  · exact .of_eq hsame

theorem Committed.intent_origin {db after : Database} {mutation : Mutation} (h : Committed db after mutation)
    {id : Identity} {new : PutIntentRow} (hnew : after.journal.putIntents.lookup id = some new) :
    (∃ old, db.journal.putIntents.lookup id = some old ∧ old.Evolves new) ∨
      ∃ batch, mutation = .putPrepare batch ∧ executePutPrepare batch db = some after ∧ id = batch.intentId ∧
        new = batch.intent := by
  cases hold : db.journal.putIntents.lookup id with
  | some old =>
      obtain ⟨found, hfound, hevolves⟩ := h.intentsEvolve id old hold
      rw [hnew] at hfound
      cases hfound
      exact .inl ⟨old, rfl, hevolves⟩
  | none =>
      refine .inr ?_
      rcases h.intents_cases with ⟨batch, hmutation, hprepare⟩ | ⟨batch, intent, _, hcommit⟩ | ⟨now, _, hexpire⟩ | hsame
      · refine ⟨batch, hmutation, hprepare, ?_⟩
        rcases executePutPrepare_eq_some hprepare with rfl | ⟨rfl, _⟩
        · rw [hold] at hnew
          cases hnew
        · rw [Table.lookup_insert_eq] at hnew
          split_ifs at hnew with hid
          · exact ⟨hid, (Option.some.inj hnew).symm⟩
          · rw [hold] at hnew
            cases hnew
      · rw [hcommit.putIntents, Table.lookup_insert_eq] at hnew
        split_ifs at hnew with hid
        · rw [hid, hcommit.found] at hold
          cases hold
        · rw [hold] at hnew
          cases hnew
      · obtain ⟨_, _, rfl, _⟩ := executeMaintenance_eq_some hexpire
        rw [Table.lookup_mapRows, hold] at hnew
        cases hnew
      · rw [hsame, hold] at hnew
        cases hnew

/-! ### Locations over time -/

/-- What may become of a location: its state moves on towards `deleted`, and it keeps its object. -/
structure LocationRow.Evolves (old new : LocationRow) : Prop where
  versionId : new.versionId = old.versionId
  driverId : new.driverId = old.driverId
  storageKey : new.storageKey = old.storageKey
  sizeBytes : new.sizeBytes = old.sizeBytes
  unavailable : old.state ≠ .available → new.state ≠ .available
  deleted : old.state = .deleted → new.state = .deleted

theorem LocationRow.Evolves.refl (location : LocationRow) : location.Evolves location :=
  ⟨rfl, rfl, rfl, rfl, fun hstate => hstate, fun hstate => hstate⟩

theorem LocationRow.Evolves.trans {first second third : LocationRow} (h : first.Evolves second)
    (h' : second.Evolves third) : first.Evolves third :=
  ⟨h'.versionId.trans h.versionId, h'.driverId.trans h.driverId, h'.storageKey.trans h.storageKey,
    h'.sizeBytes.trans h.sizeBytes, fun hstate => h'.unavailable (h.unavailable hstate),
    fun hstate => h'.deleted (h.deleted hstate)⟩

def LocationsEvolve (before after : Database) : Prop :=
  ∀ id old, before.objects.locations.lookup id = some old →
    ∃ new, after.objects.locations.lookup id = some new ∧ old.Evolves new

theorem LocationsEvolve.of_eq {before after : Database} (h : after.objects.locations = before.objects.locations) :
    LocationsEvolve before after := by
  intro id old hold
  exact ⟨old, by rw [h, hold], .refl old⟩

theorem LocationsEvolve.trans {first second third : Database} (h : LocationsEvolve first second)
    (h' : LocationsEvolve second third) : LocationsEvolve first third := by
  intro id old hold
  obtain ⟨middle, hmiddle, hfirst⟩ := h id old hold
  obtain ⟨new, hnew, hsecond⟩ := h' id middle hmiddle
  exact ⟨new, hnew, hfirst.trans hsecond⟩

theorem Committed.locationsEvolve {db after : Database} {mutation : Mutation} (h : Committed db after mutation) :
    LocationsEvolve db after := by
  rcases h.store_cases with ⟨batch, intent, rfl, hcommit⟩ | ⟨batch, _, hmkdir⟩ | ⟨batch, _, hremove⟩ |
    ⟨batch, _, hrename⟩ | ⟨_, _, locations, hobjects, hages⟩
  · obtain ⟨_, _, hfresh, _, _, hlocations⟩ := putObjects_eq_some hcommit.objects
    intro id old hold
    have hid : id ≠ intent.locationId := by
      intro hid
      rw [hid, hfresh] at hold
      cases hold
    exact ⟨old, by rw [hlocations, Table.lookup_insert_eq, if_neg hid, hold], .refl old⟩
  · exact .of_eq (by rw [hmkdir.objects])
  · intro id old hold
    rw [hremove.objects, removeObjects]
    split
    · exact ⟨old, hold, .refl old⟩
    · refine ⟨_, by rw [Table.lookup_mapRows, hold, Option.map_some], ?_⟩
      split_ifs with hremoved
      · exact ⟨rfl, rfl, rfl, rfl, fun _ => by simp, fun hdeleted => by simp [hdeleted] at hremoved⟩
      · exact .refl old
  · exact .of_eq (by rw [hrename.objects])
  · intro id old hold
    obtain ⟨new, hnew, hage⟩ := hages.forward id old hold
    refine ⟨new, by rw [hobjects]; exact hnew, hage.versionId, hage.driverId, hage.storageKey, hage.sizeBytes, ?_, ?_⟩
    · intro hstate
      rcases hage.state with hsame | ⟨havailable, _⟩ | ⟨_, hdeleted⟩
      · rwa [hsame]
      · exact absurd havailable hstate
      · simp [hdeleted]
    · intro hstate
      rcases hage.state with hsame | ⟨havailable, _⟩ | ⟨_, hdeleted⟩
      · rwa [hsame]
      · simp [havailable] at hstate
      · exact hdeleted

/-! ### Storage keys -/

/-- No location was ever recorded under the storage key. -/
def Database.Unpublished (db : Database) (driverId storageKey : Text) : Prop :=
  ∀ id location, db.objects.locations.lookup id = some location →
    ¬(location.driverId = driverId ∧ location.storageKey = storageKey)

/-- The intents own their storage keys, and the locations are what committed intents published. -/
structure UploadsOwned (db : Database) : Prop where
  keys : ∀ id other intent intent', db.journal.putIntents.lookup id = some intent →
    db.journal.putIntents.lookup other = some intent' → intent.driverId = intent'.driverId →
      intent.storageKey = intent'.storageKey → id = other
  locations : ∀ id location, db.objects.locations.lookup id = some location →
    ∃ intentId intent, db.journal.putIntents.lookup intentId = some intent ∧ intent.state = .committed ∧
      location.driverId = intent.driverId ∧ location.storageKey = intent.storageKey
  tasks : ∀ id, (db.lifecycle.putTasks.lookup id).isSome → db.ended id

theorem Bootstrapped.uploadsOwned {prims : Primitives} {db : Database} (h : Bootstrapped prims db) :
    UploadsOwned db where
  keys := by
    obtain ⟨_, hjournal⟩ := h.journal
    intro id other intent intent' hintent
    rw [hjournal] at hintent
    cases hintent
  locations := by
    intro id location hlocation
    rw [h.objects] at hlocation
    cases hlocation
  tasks := by
    intro id htask
    rw [h.lifecycle] at htask
    cases htask

theorem Committed.keysOwned {db after : Database} {mutation : Mutation} (h : Committed db after mutation)
    (howned : UploadsOwned db) (id other : Identity) (intent intent' : PutIntentRow)
    (hintent : after.journal.putIntents.lookup id = some intent)
    (hintent' : after.journal.putIntents.lookup other = some intent') (hdriver : intent.driverId = intent'.driverId)
    (hkey : intent.storageKey = intent'.storageKey) : id = other := by
  rcases h.intent_origin hintent with ⟨old, hold, hevolves⟩ | ⟨batch, rfl, hprepare, rfl, rfl⟩
  · obtain ⟨_, _, rfl⟩ := hevolves.same
    rcases h.intent_origin hintent' with ⟨old', hold', hevolves'⟩ | ⟨batch, rfl, hprepare, rfl, rfl⟩
    · obtain ⟨_, _, rfl⟩ := hevolves'.same
      exact howned.keys _ _ _ _ hold hold' hdriver hkey
    · rcases executePutPrepare_eq_some hprepare with rfl | ⟨_, _, _, _, hunique, _⟩
      · exact howned.keys _ _ _ _ hintent hintent' hdriver hkey
      · exact absurd ⟨hdriver, hkey⟩ (hunique _ _ hold).2.2
  · rcases h.intent_origin hintent' with ⟨old', hold', hevolves'⟩ | ⟨batch', heq, hprepare', rfl, rfl⟩
    · obtain ⟨_, _, rfl⟩ := hevolves'.same
      rcases executePutPrepare_eq_some hprepare with rfl | ⟨_, _, _, _, hunique, _⟩
      · exact howned.keys _ _ _ _ hintent hintent' hdriver hkey
      · exact absurd ⟨hdriver.symm, hkey.symm⟩ (hunique _ _ hold').2.2
    · cases heq
      rfl

theorem Committed.location_origin {db after : Database} {mutation : Mutation} (h : Committed db after mutation)
    {id : Identity} {new : LocationRow} (hnew : after.objects.locations.lookup id = some new) :
    (∃ old, db.objects.locations.lookup id = some old ∧ old.Evolves new) ∨
      ∃ batch intent, mutation = .putCommit batch ∧ PutCommitted batch intent db after ∧ id = intent.locationId ∧
        new = putLocation batch intent := by
  cases hold : db.objects.locations.lookup id with
  | some old =>
      obtain ⟨found, hfound, hevolves⟩ := h.locationsEvolve id old hold
      rw [hnew] at hfound
      cases hfound
      exact .inl ⟨old, rfl, hevolves⟩
  | none =>
      rcases h.store_cases with ⟨batch, intent, rfl, hcommit⟩ | ⟨batch, _, hmkdir⟩ | ⟨batch, _, hremove⟩ |
        ⟨batch, _, hrename⟩ | ⟨_, _, locations, hobjects, hages⟩
      · obtain ⟨_, _, _, _, _, hlocations⟩ := putObjects_eq_some hcommit.objects
        rw [hlocations, Table.lookup_insert_eq] at hnew
        split_ifs at hnew with hid
        · exact .inr ⟨batch, intent, rfl, hcommit, hid, (Option.some.inj hnew).symm⟩
        · rw [hold] at hnew
          cases hnew
      · rw [hmkdir.objects, hold] at hnew
        cases hnew
      · rw [hremove.objects, removeObjects] at hnew
        split at hnew
        · rw [hold] at hnew
          cases hnew
        · rw [Table.lookup_mapRows, hold] at hnew
          cases hnew
      · rw [hrename.objects, hold] at hnew
        cases hnew
      · rw [hobjects] at hnew
        obtain ⟨old, hfound, _⟩ := hages.backward id new hnew
        rw [hold] at hfound
        cases hfound

theorem Committed.locationsOwned {db after : Database} {mutation : Mutation} (h : Committed db after mutation)
    (howned : UploadsOwned db) (id : Identity) (location : LocationRow)
    (hlocation : after.objects.locations.lookup id = some location) :
    ∃ intentId intent, after.journal.putIntents.lookup intentId = some intent ∧ intent.state = .committed ∧
      location.driverId = intent.driverId ∧ location.storageKey = intent.storageKey := by
  rcases h.location_origin hlocation with ⟨old, hold, hlocated⟩ | ⟨batch, intent, _, hcommit, _, rfl⟩
  · obtain ⟨intentId, intent, hintent, hcommitted, hdriver', hkey'⟩ := howned.locations id old hold
    obtain ⟨new, hnew, hevolves⟩ := h.intentsEvolve intentId intent hintent
    have hsame : new = intent := hevolves.final (by rw [hcommitted]; decide)
    rw [hsame] at hnew
    exact ⟨intentId, intent, hnew, hcommitted, hlocated.driverId.trans hdriver', hlocated.storageKey.trans hkey'⟩
  · rw [hcommit.putIntents]
    exact ⟨batch.intentId, _, AList.lookup_insert _, rfl, rfl, rfl⟩

theorem IntentsEvolve.ended {before after : Database} (h : IntentsEvolve before after) {id : Identity}
    (hended : before.ended id) : after.ended id := by
  obtain ⟨intent, hintent, hstate⟩ := hended
  obtain ⟨new, hnew, hevolves⟩ := h id intent hintent
  have hsame : new = intent := hevolves.final (by rcases hstate with hstate | hstate <;> simp [hstate])
  exact ⟨intent, hsame ▸ hnew, hstate⟩

theorem Lifecycle.supersede_putTasks_isSome (lifecycle : Lifecycle) (intents : Table Identity PutIntentRow)
    (holds : Text → Text → Bool) (id : Identity) :
    ((lifecycle.supersede intents holds).putTasks.lookup id).isSome = (lifecycle.putTasks.lookup id).isSome := by
  rw [Lifecycle.supersede, Table.lookup_mapRows, Option.isSome_map]

theorem Committed.putTask_origin {db after : Database} {mutation : Mutation} (h : Committed db after mutation)
    {id : Identity} (htask : (after.lifecycle.putTasks.lookup id).isSome) :
    (db.lifecycle.putTasks.lookup id).isSome ∨ after.ended id := by
  cases h with
  | putCommit h =>
      rw [h.lifecycle, Lifecycle.supersedeUpload, Lifecycle.supersede_putTasks_isSome] at htask
      exact .inl htask
  | mkdir h => exact .inl (h.lifecycle ▸ htask)
  | remove h =>
      rw [h.lifecycle, Lifecycle.supersede_putTasks_isSome] at htask
      exact .inl htask
  | rename h => exact .inl (h.lifecycle ▸ htask)
  | putPrepare h =>
      rcases executePutPrepare_eq_some h with rfl | ⟨rfl, _⟩
      · exact .inl htask
      · exact .inl htask
  | evidence h =>
      obtain ⟨_, rfl⟩ := executeEvidence_eq_some h
      exact .inl htask
  | tokenIssue h =>
      obtain ⟨_, _, _, rfl⟩ := executeTokenIssue_eq_some h
      exact .inl htask
  | tokenRevoke h =>
      obtain ⟨_, _, _, _, rfl⟩ := executeTokenRevoke_eq_some h
      exact .inl htask
  | aclReplace h =>
      obtain ⟨_, _, _, _, rfl⟩ := executeAclReplace_eq_some h
      exact .inl htask
  | placementReplace h =>
      obtain ⟨_, _, _, _, _, rfl⟩ := executePlacementReplace_eq_some h
      exact .inl htask
  | maintenance h => exact executeMaintenance_putTasks h htask
  | markUnreachable h =>
      obtain ⟨_, _, rfl, _⟩ := executeMarkUnreachable_eq_some h
      rw [Lifecycle.supersede_putTasks_isSome] at htask
      exact .inl htask
  | locationComplete h =>
      obtain ⟨_, _, rfl, _⟩ := executeLocationComplete_eq_some h
      exact .inl htask
  | task lifecycle _ hchange h =>
      subst h
      cases hchange with
      | @putTask _ found task new hfound =>
          rw [Table.lookup_insert_eq] at htask
          by_cases hid : id = found
          · exact .inl (by rw [hid, hfound]; rfl)
          · rw [if_neg hid] at htask
            exact .inl htask
      | _ => exact .inl htask

theorem Committed.uploadsOwned {db after : Database} {mutation : Mutation} (h : Committed db after mutation)
    (howned : UploadsOwned db) : UploadsOwned after where
  keys := h.keysOwned howned
  locations := h.locationsOwned howned
  tasks := by
    intro id htask
    rcases h.putTask_origin htask with hold | hended
    · exact h.intentsEvolve.ended (howned.tasks id hold)
    · exact hended

theorem Drift.uploadsOwned {before after : Database} (h : Drift before after) (howned : UploadsOwned before) :
    UploadsOwned after := by
  obtain ⟨_, _, _, rfl⟩ := h
  exact ⟨howned.keys, howned.locations, howned.tasks⟩

theorem uploadsOwned_of_reachable {prims : Primitives} {permit : Moment Database Mutation → Mutation → Prop}
    {start : Database} {system : ControlState} (hstart : Bootstrapped prims start)
    (hreach : Reachable prims permit start system) : UploadsOwned system.state :=
  hreach.state_invariant UploadsOwned (fun _ _ howned hdrift => hdrift.uploadsOwned howned)
    (fun _ _ _ howned _ hcommitted => hcommitted.uploadsOwned howned) hstart.uploadsOwned

theorem intentsEvolve_of_runs {prims : Primitives} {permit : Moment Database Mutation → Mutation → Prop}
    {system later : ControlState} (hrun : (controlPlane prims).Runs permit system later) :
    IntentsEvolve system.state later.state := by
  apply runs_relate IntentsEvolve (fun _ => .of_eq rfl) (fun h h' => h.trans h') ?_ ?_ hrun
  · intro before after hdrift
    obtain ⟨_, _, _, rfl⟩ := hdrift
    exact .of_eq rfl
  · intro moment mutation after _ hcommitted
    exact hcommitted.intentsEvolve

theorem intentsEvolve_of_before {prims : Primitives} {permit : Moment Database Mutation → Mutation → Prop}
    {start : Database} {system : ControlState} (hreach : Reachable prims permit start system) {past : Instant}
    (hpast : past.Before system.toMoment) : IntentsEvolve past.state system.state := by
  obtain ⟨earlier, _, hrun, rfl⟩ := Machine.runs_of_before hreach hpast
  exact intentsEvolve_of_runs hrun

/-! ### Deleting what was uploaded -/

/-- The stored object that a request deletes because its upload was given up. -/
def Effect.abandonedObject : Effect → Option (Text × Text)
  | .deleteObject (.abandonedPut _) _ driverId storageKey _ _ => some (driverId, storageKey)
  | .cleanupUpload _ _ driverId storageKey _ => some (driverId, storageKey)
  | _ => none

/-- A task whose completion records that an upload is gone. -/
inductive UploadTask where
  | putDelete (id : Identity)
  | uploadCleanup (id : Identity)
deriving DecidableEq

/-- The task that a statement completes, and the fencing token it presents. -/
def Mutation.completes : Mutation → Option (UploadTask × Nat)
  | .putFinish id fencingToken .deleted _ => some (.putDelete id, fencingToken)
  | .clientComplete fence _ => some (.putDelete fence.taskId, fence.fencingToken)
  | .uploadFinish id fencingToken none _ => some (.uploadCleanup id, fencingToken)
  | _ => none

def Database.fence (db : Database) : UploadTask → Option Nat
  | .putDelete id => (db.lifecycle.putTasks.lookup id).map PutDeleteTaskRow.fencingToken
  | .uploadCleanup id => (db.lifecycle.uploadTasks.lookup id).map UploadCleanupTaskRow.fencingToken

/-- A statement completes a task only under the token by which the task is held. -/
theorem fence_of_completes {mutation : Mutation} {task : UploadTask} {fencingToken : Nat} {db after : Database}
    (hcompletes : mutation.completes = some (task, fencingToken)) (h : execute mutation db = some (after, true)) :
    db.fence task = some fencingToken := by
  unfold Mutation.completes at hcompletes
  split at hcompletes
  · cases hcompletes
    simp only [execute, executePutFinish] at h
    split at h
    · rename_i found hfound
      split_ifs at h with hfence
      · rw [Database.fence, hfound, Option.map_some, hfence.2.1]
      · simp at h
    · simp at h
  · cases hcompletes
    rename_i fence now
    simp only [execute, executeClientComplete, updatePutTask] at h
    split at h
    · rename_i found hfound
      split_ifs at h with hfence
      · simp only [DeletionFence.holds, Bool.and_eq_true, beq_iff_eq] at hfence
        rw [Database.fence, hfound, Option.map_some, hfence.1.1.1.2]
      · simp at h
    · simp at h
  · cases hcompletes
    simp only [execute, executeUploadFinish] at h
    split at h
    · rename_i found hfound
      by_cases hfence : found.state = .cleaning ∧ found.fencingToken = fencingToken
      · rw [Database.fence, hfound, Option.map_some, hfence.2]
      · rw [if_neg hfence] at h
        simp at h
    · simp at h
  · cases hcompletes

theorem UploadsOwned.unpublished {db : Database} (h : UploadsOwned db) {id : Identity} {intent : PutIntentRow}
    (hintent : db.journal.putIntents.lookup id = some intent)
    (hended : intent.state = .expired ∨ intent.state = .abandoned) :
    db.Unpublished intent.driverId intent.storageKey := by
  intro locationId location hlocation hsame
  obtain ⟨other, committed, hcommitted, hstate, hdriver, hkey⟩ := h.locations locationId location hlocation
  have hid := h.keys _ _ _ _ hintent hcommitted (hsame.1.symm.trans hdriver) (hsame.2.symm.trans hkey)
  rw [hid, hcommitted] at hintent
  cases hintent
  simp [hstate] at hended

theorem unpublished_of_runs {prims : Primitives} {permit : Moment Database Mutation → Mutation → Prop}
    {start : Database} {system later : ControlState} (hstart : Bootstrapped prims start)
    (hreach : Reachable prims permit start system) (hrun : (controlPlane prims).Runs permit system later)
    {id : Identity} {intent : PutIntentRow} (hintent : system.state.journal.putIntents.lookup id = some intent)
    (hended : intent.state = .expired ∨ intent.state = .abandoned) :
    later.state.Unpublished intent.driverId intent.storageKey := by
  obtain ⟨new, hnew, hevolves⟩ := intentsEvolve_of_runs hrun id intent hintent
  have hsame : new = intent := hevolves.final (by rcases hended with hended | hended <;> simp [hended])
  rw [hsame] at hnew
  exact (uploadsOwned_of_reachable hstart (hreach.trans hrun)).unpublished hnew hended

theorem loadAbandonedPut_eq_some {db : Database} {id : Identity} {now : Nat} {task : PutDeleteTaskRow}
    {intent : PutIntentRow} {evidence : EvidenceRow} {driver : DriverRow}
    (h : loadAbandonedPut db id now = some (task, intent, evidence, driver)) :
    db.journal.putIntents.lookup id = some intent ∧ (intent.state = .expired ∨ intent.state = .abandoned) := by
  simp only [loadAbandonedPut, Option.bind_eq_bind, Option.bind_eq_some_iff, require_eq_some, Option.some.injEq,
    Prod.mk.injEq, Bool.and_eq_true] at h
  obtain ⟨_, htask, _, hintent, _, hevidence, _, _, _, hsafe, rfl, rfl, rfl, rfl⟩ := h
  refine ⟨hintent, ?_⟩
  have hview := hsafe.2
  simp only [putTaskSafe, htask, hintent, hevidence, Bool.and_eq_true, Bool.or_eq_true, beq_iff_eq] at hview
  exact hview.1.1.1.1.2

theorem loadUploadCleanup_eq_some {db : Database} {id : Identity} {now : Nat} {task : UploadCleanupTaskRow}
    {intent : PutIntentRow} {driver : DriverRow} (h : loadUploadCleanup db id now = some (task, intent, driver)) :
    db.journal.putIntents.lookup id = some intent ∧ (intent.state = .expired ∨ intent.state = .abandoned) := by
  simp only [loadUploadCleanup, Option.bind_eq_bind, Option.bind_eq_some_iff, require_eq_some, Option.some.injEq,
    Prod.mk.injEq, Bool.and_eq_true] at h
  obtain ⟨_, htask, _, hintent, _, _, _, hsafe, rfl, rfl, rfl⟩ := h
  refine ⟨hintent, ?_⟩
  have hview := hsafe.2
  simp only [uploadTaskSafe, htask, hintent, Bool.and_eq_true, Bool.or_eq_true, beq_iff_eq] at hview
  exact hview.1.1.1.2

/-- What a request deletes because its upload was given up belongs to an intent that ended. -/
theorem ended_of_abandonedObject {prims : Primitives} {permit : Moment Database Mutation → Mutation → Prop}
    {start : Database} {system : ControlState} (hreach : Reachable prims permit start system) {effect : Effect}
    {driverId storageKey : Text} (horigin : EffectOrigin effect system.toMoment)
    (hobject : effect.abandonedObject = some (driverId, storageKey)) :
    ∃ id intent, system.state.journal.putIntents.lookup id = some intent ∧
      (intent.state = .expired ∨ intent.state = .abandoned) ∧ intent.driverId = driverId ∧
        intent.storageKey = storageKey := by
  have hread : ∃ past : Instant, past.Before system.toMoment ∧ ∃ id intent,
      past.state.journal.putIntents.lookup id = some intent ∧
        (intent.state = .expired ∨ intent.state = .abandoned) ∧ intent.driverId = driverId ∧
          intent.storageKey = storageKey := by
    unfold Effect.abandonedObject at hobject
    split at hobject
    · cases hobject
      obtain ⟨_, _, intent, _, _, ⟨past, hpast, hload⟩, hdriver, hkey⟩ := horigin
      obtain ⟨hintent, hended⟩ := loadAbandonedPut_eq_some hload
      exact ⟨past, hpast, _, intent, hintent, hended, hdriver, hkey⟩
    · cases hobject
      obtain ⟨_, _, intent, _, ⟨past, hpast, hload⟩, hdriver, hkey⟩ := horigin
      obtain ⟨hintent, hended⟩ := loadUploadCleanup_eq_some hload
      exact ⟨past, hpast, _, intent, hintent, hended, hdriver, hkey⟩
    · cases hobject
  obtain ⟨past, hpast, id, intent, hintent, hended, hdriver, hkey⟩ := hread
  obtain ⟨new, hnew, hevolves⟩ := intentsEvolve_of_before hreach hpast id intent hintent
  have hsame : new = intent := hevolves.final (by rcases hended with hended | hended <;> simp [hended])
  exact ⟨id, intent, hsame ▸ hnew, hended, hdriver, hkey⟩

/-- A provider delete on behalf of an abandoned upload, whether a handler asks for it or a client carries it out for
its task, hits a storage key without location, now and ever after; and at any time a task can be completed under one
fencing token at most. -/
theorem abandoned_deletes_unpublished {prims : Primitives} {start : Database} {system : ControlState}
    (hstart : Bootstrapped prims start) (hreach : Reachable prims anyBatch start system) :
    (∀ (index : Nat) (effect : Effect) (next : Answer → Handler) (driverId storageKey : Text),
        system.threads[index]? = some (.call effect next) → effect.abandonedObject = some (driverId, storageKey) →
        ∀ later, (controlPlane prims).Runs anyBatch system later → later.state.Unpublished driverId storageKey) ∧
      (∀ id task, system.state.lifecycle.putTasks.lookup id = some task →
        ∃ intent, system.state.journal.putIntents.lookup id = some intent ∧
          ∀ later, (controlPlane prims).Runs anyBatch system later →
            later.state.Unpublished intent.driverId intent.storageKey) ∧
      ∀ (first second : Mutation) (task : UploadTask) (token token' : Nat) (after after' : Database),
        first.completes = some (task, token) → second.completes = some (task, token') →
          execute first system.state = some (after, true) → execute second system.state = some (after', true) →
            token = token' := by
  refine ⟨?_, ?_, ?_⟩
  · intro index effect next driverId storageKey hthread hobject later hrun
    obtain ⟨id, intent, hintent, hended, rfl, rfl⟩ :=
      ended_of_abandonedObject hreach (hreach.effectOrigin hthread) hobject
    exact unpublished_of_runs hstart hreach hrun hintent hended
  · intro id task htask
    obtain ⟨intent, hintent, hended⟩ :=
      (uploadsOwned_of_reachable hstart hreach).tasks id (by rw [htask]; rfl)
    exact ⟨intent, hintent, fun later hrun => unpublished_of_runs hstart hreach hrun hintent hended⟩
  · intro first second task token token' after after' hfirst hsecond hexecute hexecute'
    have hfence := fence_of_completes hfirst hexecute
    rw [fence_of_completes hsecond hexecute'] at hfence
    exact (Option.some.inj hfence).symm

namespace Sample

/-- An upload whose publication stops behind its evidence, and whose grant and intent expire: one lifecycle pass is about
to clean the upload up, and a later one to delete its object. -/
def abandonedUpload : List (Machine.Event Request Database Answer) :=
  complete 0 (prepareRequest 1 root [97] 0) ++ complete 1 (.client bearer (.grantPutDriver (fresh 10))) ++
    .request (commitRequest 1) :: advances 2 6 ++ .reply 2 .done :: advances 2 2 ++
    wait 100000 :: .request .maintenance :: advances 3 10 ++ wait 10000000 :: .request .maintenance :: advances 4 10

theorem abandoned_deletes_unpublished_both :
    ∃ system effect, Reachable prims anyBatch database system ∧
      (∃ next, system.threads[3]? = some (.call (.cleanupUpload (fresh 10) .r2V1 driverId (key 1) none) next)) ∧
      (∃ next, system.threads[4]? = some (.call effect next)) ∧ effect.abandonedObject = some (driverId, key 1) ∧
      (∃ task intent, system.state.lifecycle.putTasks.lookup (fresh 10) = some task ∧
        system.state.journal.putIntents.lookup (fresh 10) = some intent ∧
        ∀ later, (controlPlane prims).Runs anyBatch system later →
          later.state.Unpublished intent.driverId intent.storageKey) ∧
      ∀ later, (controlPlane prims).Runs anyBatch system later → later.state.Unpublished driverId (key 1) := by
  have hreach := reachable_any_run abandonedUpload (by
    intro change hmem db
    simp only [abandonedUpload, complete, advances, wait, List.mem_append, List.mem_cons, List.mem_replicate,
      reduceCtorEq, and_false, or_false, false_or, List.cons_append, Machine.Event.become.injEq] at hmem
    rcases hmem with hmem | hmem
    · rw [hmem]
      exact ⟨_, _, _, rfl⟩
    · rw [hmem]
      exact ⟨_, _, _, rfl⟩)
  obtain ⟨hcalls, htasks, _⟩ := abandoned_deletes_unpublished bootstrapped_database hreach
  have hcleanup : (run abandonedUpload).called 3 =
      some (.cleanupUpload (fresh 10) .r2V1 driverId (key 1) none) := by decide +kernel
  obtain ⟨first, hfirst⟩ := System.called_eq_some hcleanup
  have hdelete : ((run abandonedUpload).called 4).any
      (fun effect => effect.abandonedObject == some (driverId, key 1)) = true := by decide +kernel
  obtain ⟨effect, heffect, hobject⟩ := (Option.any_eq_true _ _).mp hdelete
  obtain ⟨second, hsecond⟩ := System.called_eq_some heffect
  have htask : ((run abandonedUpload).state.lifecycle.putTasks.lookup (fresh 10)).isSome = true := by decide +kernel
  obtain ⟨task, htask⟩ := Option.isSome_iff_exists.mp htask
  obtain ⟨intent, hintent, hunpublished⟩ := htasks (fresh 10) task htask
  exact ⟨_, effect, hreach, ⟨first, hfirst⟩, ⟨second, hsecond⟩, beq_iff_eq.mp hobject,
    ⟨task, intent, htask, hintent, hunpublished⟩, hcalls 4 effect second driverId (key 1) hsecond (beq_iff_eq.mp hobject)⟩

end Sample

end Skydriver
