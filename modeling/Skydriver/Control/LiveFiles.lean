import Skydriver.Control.Linkage
import Skydriver.Control.Leases

/-!
# The bytes of live files

A file entry pins a file, a version and with it the bytes of a location.  Removal gives all three up, by the identities
its handler loaded, and the lifecycle passes give up what no entry reaches.  As long as a removal finds under its name
the entry that its handler loaded, every entry keeps its file active, its version published and a location available,
and no pass asks a provider to delete the location of a version that an entry pins.
-/

namespace Skydriver

/-- What stands behind a file entry. -/
structure Live (db : Database) (fileId versionId : Identity) (sizeBytes : UInt64) (dataRoot : Digest) : Prop where
  file : ∃ file, db.objects.files.lookup fileId = some file ∧ file.state = .active ∧
    file.currentVersionId = some versionId
  version : ∃ version, db.objects.versions.lookup versionId = some version ∧ version.state = .published ∧
    version.fileId = fileId ∧ version.description.plaintextBytes = sizeBytes ∧ version.description.fileRoot = dataRoot
  location : ∃ id location, db.objects.locations.lookup id = some location ∧ location.versionId = versionId ∧
    location.state = .available

/-- Every file entry is live. -/
structure FilesLive (db : Database) : Prop where
  live : ∀ {key fileId versionId sizeBytes dataRoot metadataRoot revision}, db.tree.entries.lookup key =
    some ⟨.file fileId versionId sizeBytes dataRoot metadataRoot, revision⟩ → Live db fileId versionId sizeBytes dataRoot

structure LocationsUnique (db : Database) : Prop where
  version : ∀ {id location}, db.objects.locations.lookup id = some location →
    ∃ version, db.objects.versions.lookup location.versionId = some version
  unique : ∀ {id other location location'}, db.objects.locations.lookup id = some location →
    db.objects.locations.lookup other = some location' → location.versionId = location'.versionId → id = other

section Step

variable {db after : Database} {mutation : Mutation}

/-! ### Locations -/

theorem Committed.locationsUnique (h : Committed db after mutation) (hunique : LocationsUnique db) :
    LocationsUnique after where
  version := by
    intro id location hlocation
    rcases h.location_origin hlocation with ⟨old, hold, hevolves⟩ | ⟨batch, intent, rfl, hput, _, rfl⟩
    · obtain ⟨version, hfound⟩ := hunique.version hold
      obtain ⟨found, hafter, _⟩ := h.version_persists hfound
      exact ⟨found, hevolves.versionId ▸ hafter⟩
    · obtain ⟨_, _, _, _, hversions, _⟩ := putObjects_eq_some hput.objects
      rw [hversions, putLocation]
      exact ⟨_, AList.lookup_insert _⟩
  unique := by
    intro id other location location' hlocation hother hsame
    -- the version of a new location is new
    have hfresh : ∀ {batch intent id old}, PutCommitted batch intent db after →
        db.objects.locations.lookup id = some old → old.versionId ≠ intent.versionId := by
      intro batch intent id old hput hold heq
      obtain ⟨_, hnone, _⟩ := putObjects_eq_some hput.objects
      obtain ⟨_, hfound⟩ := hunique.version hold
      rw [heq, hnone] at hfound
      cases hfound
    rcases h.location_origin hlocation with ⟨old, hold, hevolves⟩ | ⟨batch, intent, rfl, hput, hid, rfl⟩
    · rcases h.location_origin hother with ⟨old', hold', hevolves'⟩ | ⟨batch, intent, rfl, hput, _, rfl⟩
      · exact hunique.unique hold hold' (hevolves.versionId.symm.trans (hsame.trans hevolves'.versionId))
      · exact absurd (hevolves.versionId.symm.trans hsame) (hfresh hput hold)
    · rcases h.location_origin hother with ⟨old', hold', hevolves'⟩ | ⟨batch', intent', heq, hput', hid', rfl⟩
      · exact absurd (hevolves'.versionId.symm.trans hsame.symm) (hfresh hput hold')
      · cases heq
        have hintent := hput.found.symm.trans hput'.found
        rw [hid, hid', Option.some.inj hintent]

/-! ### Live entries -/

theorem Live.file_eq {fileId fileId' versionId : Identity} {sizeBytes sizeBytes' : UInt64} {dataRoot dataRoot' : Digest}
    (h : Live db fileId versionId sizeBytes dataRoot) (h' : Live db fileId' versionId sizeBytes' dataRoot') :
    fileId = fileId' := by
  obtain ⟨version, hversion, _, hfile, _⟩ := h.version
  obtain ⟨version', hversion', _, hfile', _⟩ := h'.version
  rw [hversion] at hversion'
  cases hversion'
  exact hfile.symm.trans hfile'

theorem PutCommitted.live_persists {batch : PutCommitBatch} {intent : PutIntentRow} (h : PutCommitted batch intent db after)
    {fileId versionId : Identity} {sizeBytes : UInt64} {dataRoot : Digest} (hlive : Live db fileId versionId sizeBytes dataRoot)
    (hother : fileId ≠ intent.fileId) : Live after fileId versionId sizeBytes dataRoot := by
  obtain ⟨hfiles, hfresh, hvacant, _, hversions, hlocations⟩ := putObjects_eq_some h.objects
  obtain ⟨⟨file, hfile, hrest⟩, ⟨version, hversion, hpublished⟩, id, location, hlocation, havailable⟩ := hlive
  refine ⟨⟨file, ?_, hrest⟩, ⟨version, ?_, hpublished⟩, id, location, ?_, havailable⟩
  · generalize after.objects.files = files at hfiles
    cases hfiles with
    | inserted _ _ => rw [Table.lookup_insert_eq, if_neg hother, hfile]
    | replaced _ => rw [Table.lookup_modify_ne _ hother, hfile]
  · rw [hversions, Table.lookup_insert_eq, if_neg, hversion]
    intro heq
    rw [heq, hfresh] at hversion
    cases hversion
  · rw [hlocations, Table.lookup_insert_eq, if_neg, hlocation]
    intro heq
    rw [heq, hvacant] at hlocation
    cases hlocation

theorem RemoveCommitted.live_persists {batch : RemoveBatch} (h : RemoveCommitted batch db after)
    {fileId versionId : Identity} {sizeBytes : UInt64} {dataRoot : Digest} (hlive : Live db fileId versionId sizeBytes dataRoot)
    (hother : ∀ {removed version size root metadata}, batch.entry.content = .file removed version size root metadata →
      fileId ≠ removed ∧ versionId ≠ version) : Live after fileId versionId sizeBytes dataRoot := by
  obtain ⟨⟨file, hfile, hrest⟩, ⟨version, hversion, hpublished⟩, id, location, hlocation, hpins, havailable⟩ := hlive
  constructor
  · refine ⟨file, ?_, hrest⟩
    rw [h.objects, removeObjects]
    split
    · exact hfile
    · rename_i removed _ _ _ _ hcontent
      dsimp only
      rw [Table.lookup_modify_ne _ (hother hcontent).1, hfile]
  · refine ⟨version, ?_, hpublished⟩
    rw [h.objects, removeObjects]
    split
    · exact hversion
    · rename_i _ removed _ _ _ hcontent
      dsimp only
      rw [Table.lookup_modify_ne _ (hother hcontent).2, hversion]
  · refine ⟨id, location, ?_, hpins, havailable⟩
    rw [h.objects, removeObjects]
    split
    · exact hlocation
    · rename_i _ removed _ _ _ hcontent
      dsimp only
      rw [Table.lookup_mapRows, hlocation, Option.map_some, if_neg]
      intro hremoved
      exact (hother hcontent).2 (hpins.symm.trans hremoved.1)

theorem LocationsAge.live_persists {locations : Table Identity LocationRow} (h : LocationsAge db locations)
    (htree : after.tree = db.tree) (hobjects : after.objects = { db.objects with locations })
    {key : Identity × Text} {fileId versionId : Identity} {sizeBytes : UInt64} {dataRoot metadataRoot : Digest}
    {revision : Nat} (hrow : db.tree.entries.lookup key =
      some ⟨.file fileId versionId sizeBytes dataRoot metadataRoot, revision⟩)
    (hlive : Live db fileId versionId sizeBytes dataRoot) : Live after fileId versionId sizeBytes dataRoot := by
  obtain ⟨hfile, hversion, id, location, hlocation, hpins, havailable⟩ := hlive
  obtain ⟨new, hnew, hage⟩ := h.forward id location hlocation
  rw [← htree] at hrow
  constructor
  · rw [hobjects]
    exact hfile
  · rw [hobjects]
    exact hversion
  · refine ⟨id, new, by rw [hobjects]; exact hnew, hage.versionId.trans hpins, ?_⟩
    rcases hage.state with hsame | ⟨_, hunreachable, _⟩ | ⟨htombstoned, _⟩
    · exact hsame.trans havailable
    · -- only a location that no entry reaches is given up
      obtain ⟨since, hsince⟩ := Option.isSome_iff_exists.mp hunreachable
      simp only [unreachableSince, Option.bind_eq_bind, Option.bind_eq_some_iff, require_eq_some, Bool.not_eq_true',
        Table.any_eq_false] at hsince
      obtain ⟨_, _, _, _, _, _, _, _, _, _, _, _, _, _, _, hentries, _⟩ := hsince
      have hunpinned := hentries key _ (htree ▸ hrow)
      rw [hpins] at hunpinned
      simp at hunpinned
    · rw [havailable] at htombstoned
      cases htombstoned

theorem Live.of_objects {fileId versionId : Identity} {sizeBytes : UInt64} {dataRoot : Digest}
    (h : Live db fileId versionId sizeBytes dataRoot) (hobjects : after.objects = db.objects) :
    Live after fileId versionId sizeBytes dataRoot := by
  obtain ⟨hfile, hversion, hlocation⟩ := h
  constructor
  · rw [hobjects]
    exact hfile
  · rw [hobjects]
    exact hversion
  · rw [hobjects]
    exact hlocation

theorem PutCommitted.file_ne {batch : PutCommitBatch} {intent : PutIntentRow} (h : PutCommitted batch intent db after)
    (hexist : VersionsExist db) (hunique : SubjectsUnique db) (hlive : FilesLive db) {key : Identity × Text}
    {fileId versionId : Identity} {sizeBytes : UInt64} {dataRoot metadataRoot : Digest} {revision : Nat}
    (hrow : db.tree.entries.lookup key = some ⟨.file fileId versionId sizeBytes dataRoot metadataRoot, revision⟩)
    (hkey : (intent.directoryId, intent.entryName) ≠ key) : fileId ≠ intent.fileId := by
  intro heq
  obtain ⟨hfiles, _⟩ := putObjects_eq_some h.objects
  obtain ⟨_, hbefore⟩ := h.entries hexist
  rcases hbefore with ⟨hfresh, _⟩ | ⟨_, _, _, _, _, hreplaced⟩
  · generalize after.objects.files = files at hfiles
    cases hfiles with
    | inserted _ hnone =>
        obtain ⟨file, hfile, _⟩ := (hlive.live hrow).file
        rw [heq, hnone] at hfile
        cases hfile
    | replaced hexisting => exact hexisting hfresh
  · exact hkey (hunique _ _ _ _ hreplaced hrow (by rw [heq]; exact beq_self_eq_true _))

theorem PutCommitted.live_published {batch : PutCommitBatch} {intent : PutIntentRow}
    (h : PutCommitted batch intent db after) (hexist : VersionsExist db) (hlive : FilesLive db) :
    Live after intent.fileId intent.versionId intent.description.plaintextBytes intent.description.fileRoot := by
  obtain ⟨hfiles, _, _, _, hversions, hlocations⟩ := putObjects_eq_some h.objects
  have hpublished := h.published
  simp only [putPublished, Bool.and_eq_true, Option.any_eq_true, beq_iff_eq] at hpublished
  obtain ⟨⟨⟨⟨⟨⟨file, hfile, ⟨_, hcurrent⟩, _⟩, _⟩, _⟩, _⟩, _⟩, _⟩ := hpublished
  constructor
  · refine ⟨file, hfile, ?_, hcurrent⟩
    obtain ⟨_, hbefore⟩ := h.entries hexist
    generalize after.objects.files = files at hfiles hfile
    cases hfiles with
    | inserted _ _ =>
        rw [AList.lookup_insert] at hfile
        cases hfile
        rfl
    | replaced hexisting =>
        rcases hbefore with ⟨hfresh, _⟩ | ⟨_, _, _, _, _, hreplaced⟩
        · exact absurd hfresh hexisting
        · obtain ⟨old, hold, hactive, _⟩ := (hlive.live hreplaced).file
          rw [Table.lookup_modify_self, hold, Option.map_some, Option.some.injEq] at hfile
          rw [← hfile]
          split_ifs
          · exact hactive
          · exact hactive
  · refine ⟨putVersion batch intent, ?_, rfl, rfl, rfl, rfl⟩
    rw [hversions, AList.lookup_insert]
  · refine ⟨intent.locationId, putLocation batch intent, ?_, rfl, rfl⟩
    rw [hlocations, AList.lookup_insert]

/-- A batch that finds the entry its handler loaded leaves every file entry live. -/
theorem Committed.filesLive {moment : Instant} (h : Committed moment.state after mutation)
    (hexist : VersionsExist moment.state) (hunique : SubjectsUnique moment.state)
    (hunchanged : EntryUnchanged moment mutation) (hlive : FilesLive moment.state) : FilesLive after := by
  constructor
  intro key fileId versionId sizeBytes dataRoot metadataRoot revision hrow
  rcases h.entry_cases hexist hrow with ⟨old, hwritten, hrelinked⟩ | ⟨old, hold, hrelinked, hother, _⟩
  · rw [← hrelinked.eq_of_file rfl] at hwritten
    rcases h.tree_cases with ⟨batch, intent, rfl, hput⟩ | ⟨batch, rfl, _⟩ | ⟨batch, rfl, _⟩ |
      ⟨batch, rfl, hrename⟩ | ⟨hoff, _⟩
    · rw [writtenEntry, hput.found, Option.map_some] at hwritten
      cases hwritten
      exact hput.live_published hexist hlive
    · cases hwritten
    · cases hwritten
    · have hcontent := (congrArg EntryRow.content (Prod.mk.inj (Option.some.inj hwritten)).2)
      dsimp only at hcontent
      have hmoved : moment.state.tree.entries.lookup (batch.target.sourceDirectoryId, batch.target.sourceName) =
          some ⟨.file fileId versionId sizeBytes dataRoot metadataRoot, batch.entry.revision⟩ := by
        rw [← hcontent]
        exact hunchanged
      exact (hlive.live hmoved).of_objects hrename.objects
    · rw [onNamespace_of_writtenEntry hwritten] at hoff
      cases hoff
  · rw [← hrelinked.eq_of_file rfl] at hold
    have hbefore := hlive.live hold
    rcases h.store_cases with ⟨batch, intent, rfl, hput⟩ | ⟨batch, rfl, hmkdir⟩ | ⟨batch, rfl, hremove⟩ |
      ⟨batch, rfl, hrename⟩ | ⟨_, htree, locations, hobjects, hages⟩
    · apply hput.live_persists hbefore
      apply hput.file_ne hexist hunique hlive hold
      exact hother ((intent.directoryId, intent.entryName), ⟨putContent intent, intent.expectedEntryRevision + 1⟩)
        (by rw [writtenEntry, hput.found, Option.map_some])
    · exact hbefore.of_objects hmkdir.objects
    · apply hremove.live_persists hbefore
      intro removed version size root metadata hcontent
      have hkey : key ≠ (batch.directoryId, batch.name) := by
        intro heq
        rw [heq, hremove.source_gone] at hrow
        cases hrow
      have hremoved : moment.state.tree.entries.lookup (batch.directoryId, batch.name) =
          some ⟨.file removed version size root metadata, batch.entry.revision⟩ := by
        rw [← hcontent]
        exact hunchanged
      have hfile : fileId ≠ removed := fun heq =>
        hkey (hunique _ _ _ _ hold hremoved (by rw [heq]; exact beq_self_eq_true _))
      exact ⟨hfile, fun heq => hfile (hbefore.file_eq (heq ▸ hlive.live hremoved))⟩
    · exact hbefore.of_objects hrename.objects
    · exact hages.live_persists htree hobjects hold hbefore

end Step

/-! ### Along a run -/

section Runs

variable {prims : Primitives} {start : Database} {system : ControlState} {permit : Instant → Mutation → Prop}

theorem locationsUnique_of_reachable (hstart : Bootstrapped prims start) (hrun : Reachable prims permit start system) :
    LocationsUnique system.state := by
  apply Reachable.state_invariant LocationsUnique _ _ _ hrun
  · intro before after hunique hdrift
    obtain ⟨_, _, _, rfl⟩ := hdrift
    exact ⟨hunique.version, hunique.unique⟩
  · intro moment mutation after hunique _ hcommitted
    exact hcommitted.locationsUnique hunique
  · constructor
    · intro id location hlocation
      rw [hstart.objects] at hlocation
      cases hlocation
    · intro id other location location' hlocation
      rw [hstart.objects] at hlocation
      cases hlocation

theorem filesLive_of_reachable (hpermit : ∀ moment mutation, permit moment mutation → EntryUnchanged moment mutation)
    (hstart : Bootstrapped prims start) (hrun : Reachable prims permit start system) : FilesLive system.state := by
  have hall : VersionsExist system.state ∧ SubjectsUnique system.state ∧ FilesLive system.state := by
    apply Reachable.state_invariant (fun db => VersionsExist db ∧ SubjectsUnique db ∧ FilesLive db) _ _ _ hrun
    · intro before after hall hdrift
      obtain ⟨hexist, hunique, hlive⟩ := hall
      obtain ⟨_, _, _, rfl⟩ := hdrift
      refine ⟨hexist, hunique, ⟨fun hrow => ?_⟩⟩
      obtain ⟨hfile, hversion, hlocation⟩ := hlive.live hrow
      exact ⟨hfile, hversion, hlocation⟩
    · intro moment mutation after hall hpermitted hcommitted
      obtain ⟨hexist, hunique, hlive⟩ := hall
      exact ⟨hcommitted.versionsExist hexist, hcommitted.subjectsUnique hexist hunique,
        hcommitted.filesLive hexist hunique (hpermit _ _ hpermitted) hlive⟩
    · exact ⟨hstart.versionsExist, fun key _ row _ hrow => (hstart.no_entry hrow).elim,
        ⟨fun hrow => (hstart.no_entry hrow).elim⟩⟩
  exact hall.2.2

/-- Along a run whose removals and renames find the entries they loaded, every file entry keeps its file, its version
and its bytes, and no provider is asked to delete the location of a version that an entry pins. -/
theorem file_entries_keep_bytes (hpermit : ∀ moment mutation, permit moment mutation → EntryUnchanged moment mutation)
    (hstart : Bootstrapped prims start) (hrun : Reachable prims permit start system) :
    FilesLive system.state ∧
      ∀ {index : Nat} {id : Identity} {kind : DriverKind} {driverId storageKey : Text} {provider : ProviderIdentity}
        {sizeBytes : Nat} {next : Answer → Handler} {location : LocationRow},
        system.threads[index]? =
            some (.call (.deleteObject (.location id) kind driverId storageKey provider sizeBytes) next) →
          system.state.objects.locations.lookup id = some location →
            ∀ {key fileId size dataRoot metadataRoot revision}, system.state.tree.entries.lookup key ≠
              some ⟨.file fileId location.versionId size dataRoot metadataRoot, revision⟩ := by
  have hlive := filesLive_of_reachable hpermit hstart hrun
  refine ⟨hlive, ?_⟩
  intro index id kind driverId storageKey provider sizeBytes next location hthread hlocation key fileId size dataRoot
    metadataRoot revision hentry
  obtain ⟨_, _, _, _, ⟨check, hcheck, hload⟩, _⟩ := hrun.effectOrigin hthread
  obtain ⟨⟨old, hold, htombstoned⟩, _⟩ := loadRevalidated_eq_some hload
  obtain ⟨earlier, _, hlater, rfl⟩ := Machine.runs_of_before hrun hcheck
  -- the location was a tombstone at the check and is one now, but the one the entry rests on is available
  obtain ⟨found, hfound, hevolves⟩ := (leasesClosed_of_runs hlater).locations id old hold
  rw [hlocation] at hfound
  cases hfound
  obtain ⟨other, live, hother, hversion, havailable⟩ := (hlive.live hentry).location
  have heq := (locationsUnique_of_reachable hstart hrun).unique hlocation hother hversion.symm
  rw [← heq, hlocation] at hother
  cases hother
  exact hevolves.unavailable (by rw [htombstoned]; simp) havailable

end Runs

namespace Sample

/-- The batches that find the entry their handler loaded. -/
def findsEntry (moment : Instant) : Mutation → Bool
  | .remove batch => moment.state.tree.entries.lookup (batch.directoryId, batch.name) == some batch.entry
  | .rename batch =>
      moment.state.tree.entries.lookup (batch.target.sourceDirectoryId, batch.target.sourceName) == some batch.entry
  | _ => true

theorem entryUnchanged_of_findsEntry (moment : Instant) (mutation : Mutation)
    (hfinds : findsEntry moment mutation = true) : EntryUnchanged moment mutation := by
  cases mutation with
  | remove batch => exact beq_iff_eq.mp hfinds
  | rename batch => exact beq_iff_eq.mp hfinds
  | _ => trivial

/-- When a pass deletes a removed file, no entry pins its version. -/
theorem file_entries_keep_bytes_deletedObject :
    FilesLive (run deletedObject).state ∧ ∀ key fileId size dataRoot metadataRoot revision,
      (run deletedObject).state.tree.entries.lookup key ≠
        some ⟨.file fileId (fresh 12) size dataRoot metadataRoot, revision⟩ := by
  have hreach : Reachable prims EntryUnchanged database (run deletedObject) := by
    apply reachable_run entryUnchanged_of_findsEntry deletedObject
    · intro change hmem db
      simp only [deletedObject, leasedObject, putAll, complete, advances, wait, List.mem_append, List.mem_cons,
        List.mem_replicate, reduceCtorEq, and_false, or_false, false_or, Machine.Event.become.injEq] at hmem
      rw [hmem]
      exact ⟨_, _, _, rfl⟩
    · decide +kernel
  obtain ⟨hlive, hkept⟩ := file_entries_keep_bytes (fun _ _ h => h) bootstrapped_database hreach
  refine ⟨hlive, ?_⟩
  have hcalled : (run deletedObject).called 5 =
      some (.deleteObject (.location (fresh 13)) .r2V1 driverId (key 1) ⟨some [110], none, none⟩ 10) := by
    decide +kernel
  obtain ⟨next, hthread⟩ := System.called_eq_some hcalled
  have hversion : ((run deletedObject).state.objects.locations.lookup (fresh 13)).map LocationRow.versionId =
      some (fresh 12) := by decide +kernel
  obtain ⟨location, hlocation, hsame⟩ := Option.map_eq_some_iff.mp hversion
  intro key fileId size dataRoot metadataRoot revision
  rw [← hsame]
  exact hkept hthread hlocation

end Sample

end Skydriver
