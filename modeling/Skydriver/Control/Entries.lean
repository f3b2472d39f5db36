import Skydriver.Control.Provenance

/-!
# The entries after a batch

Every namespace batch deletes at most one name, writes at most one entry, and then lets the links of its plan carry new
roots into the entries of directories.  This module says so once for all batches, and derives the two facts about
entries that hold in every run: each file entry pins a version that exists, and no two entries share a subject.
-/

namespace Skydriver

def writtenEntry (db : Database) : Mutation → Option ((Identity × Text) × EntryRow)
  | .putCommit batch =>
      (db.journal.putIntents.lookup batch.intentId).map fun intent =>
        ((intent.directoryId, intent.entryName), ⟨putContent intent, intent.expectedEntryRevision + 1⟩)
  | .mkdir batch =>
      some ((batch.parentDirectoryId, batch.name), ⟨.directory batch.childDirectoryId batch.emptyRoot, 1⟩)
  | .rename batch =>
      some ((batch.target.destinationDirectoryId, batch.target.destinationName),
        ⟨batch.entry.content, batch.entry.revision + 1⟩)
  | _ => none

/-- The name a batch deletes first, and the revision it expects there. -/
def deletedName : Mutation → Option ((Identity × Text) × Nat)
  | .remove batch => some ((batch.directoryId, batch.name), batch.expectedEntryRevision)
  | .rename batch => some ((batch.target.sourceDirectoryId, batch.target.sourceName), batch.expectedSourceRevision)
  | _ => none

theorem onNamespace_of_writtenEntry {db : Database} {mutation : Mutation} {written : (Identity × Text) × EntryRow}
    (h : writtenEntry db mutation = some written) : mutation.onNamespace = true := by
  cases mutation <;> first | rfl | cases h

theorem onNamespace_of_deletedName {mutation : Mutation} {deleted : (Identity × Text) × Nat}
    (h : deletedName mutation = some deleted) : mutation.onNamespace = true := by
  cases mutation <;> first | rfl | cases h

/-- Every file entry pins a version that exists. -/
def VersionsExist (db : Database) : Prop :=
  ∀ key row fileId versionId sizeBytes dataRoot metadataRoot, db.tree.entries.lookup key = some row →
    row.content = .file fileId versionId sizeBytes dataRoot metadataRoot →
      ∃ version, db.objects.versions.lookup versionId = some version

/-! ### What was there before -/

theorem Tree.deleteEntry_lookup_some {directoryId : Identity} {name : Text} {revision : Nat} {tree : Tree}
    {key : Identity × Text} {row : EntryRow}
    (h : (tree.deleteEntry directoryId name revision).entries.lookup key = some row) :
    tree.entries.lookup key = some row ∧ (key = (directoryId, name) → row.revision ≠ revision) := by
  rw [Tree.deleteEntry_lookup] at h
  split_ifs at h with hmatch
  refine ⟨h, ?_⟩
  intro hkey hrevision
  rw [h, Option.any_some] at hmatch
  exact hmatch ⟨hkey, beq_iff_eq.mpr hrevision⟩

/-- A put writes its entry where nothing was, or over the revision it expects: were the entry of that revision not there,
the published row would have been there before its version. -/
theorem PutCommitted.entries {batch : PutCommitBatch} {intent : PutIntentRow} {db after : Database}
    (h : PutCommitted batch intent db after) (hexist : VersionsExist db) :
    (∃ links : List LinkUpdate, after.tree.entries = links.foldl relink
        (db.tree.entries.insert (intent.directoryId, intent.entryName)
          ⟨putContent intent, intent.expectedEntryRevision + 1⟩)) ∧
      ((intent.expectedEntryRevision = 0 ∧ db.tree.entries.lookup (intent.directoryId, intent.entryName) = none) ∨
        (intent.expectedEntryRevision ≠ 0 ∧ ∃ versionId sizeBytes dataRoot metadataRoot,
          db.tree.entries.lookup (intent.directoryId, intent.entryName) =
            some ⟨.file intent.fileId versionId sizeBytes dataRoot metadataRoot, intent.expectedEntryRevision⟩)) := by
  obtain ⟨_, _, entries, hentries, htree⟩ := putTree_eq_some h.tree
  obtain ⟨_, hversion, _⟩ := putObjects_eq_some h.objects
  cases hentries with
  | inserted hfresh hnone _ _ =>
      refine ⟨⟨batch.plan.links.take batch.plan.directories.length, ?_⟩, .inl ⟨hfresh, hnone⟩⟩
      rw [htree, hfresh]
  | replaced hexisting hlookup _ =>
      refine ⟨⟨batch.plan.links.take batch.plan.directories.length, ?_⟩, .inr ⟨hexisting, _, _, _, _, hlookup⟩⟩
      rw [htree]
  | unchanged _ =>
      have hpublished := h.published
      simp only [putPublished, Bool.and_eq_true, beq_iff_eq] at hpublished
      have hafter := hpublished.1.1.2
      rw [htree] at hafter
      obtain ⟨old, hold, hrelinked⟩ := relinks_some hafter
      rw [← hrelinked.eq_of_file rfl] at hold
      obtain ⟨version, hfound⟩ := hexist _ _ _ _ _ _ _ hold rfl
      rw [hversion] at hfound
      cases hfound

/-- Every entry after a batch is the written one, or one that was there before and was not deleted, with links
applied. -/
theorem Committed.entry_cases {db after : Database} {mutation : Mutation} (h : Committed db after mutation)
    (hexist : VersionsExist db) {key : Identity × Text} {row : EntryRow}
    (hrow : after.tree.entries.lookup key = some row) :
    (∃ old, writtenEntry db mutation = some (key, old) ∧ old.Relinked row) ∨
      ∃ old, db.tree.entries.lookup key = some old ∧ old.Relinked row ∧
        (∀ written, writtenEntry db mutation = some written → written.1 ≠ key) ∧
        ∀ revision, deletedName mutation = some (key, revision) → old.revision ≠ revision := by
  rcases h.tree_cases with ⟨batch, intent, rfl, hput⟩ | ⟨batch, rfl, hmkdir⟩ | ⟨batch, rfl, hremove⟩ |
    ⟨batch, rfl, hrename⟩ | ⟨hother, hsame⟩
  · have hwritten : writtenEntry db (.putCommit batch) = some ((intent.directoryId, intent.entryName),
        ⟨putContent intent, intent.expectedEntryRevision + 1⟩) := by
      rw [writtenEntry, hput.found, Option.map_some]
    obtain ⟨⟨links, htree⟩, _⟩ := hput.entries hexist
    rw [htree] at hrow
    obtain ⟨old, hold, hrelinked⟩ := relinks_some hrow
    rw [Table.lookup_insert_eq] at hold
    split_ifs at hold with hkey
    · cases hold
      exact .inl ⟨_, by rw [hwritten, hkey], hrelinked⟩
    · refine .inr ⟨old, hold, hrelinked, ?_, fun _ hdeleted => by cases hdeleted⟩
      intro written heq
      rw [hwritten] at heq
      cases heq
      exact Ne.symm hkey
  · obtain ⟨_, _, _, _, _, _, _, _, htree⟩ := mkdirTree_eq_some hmkdir.tree
    rw [htree] at hrow
    obtain ⟨old, hold, hrelinked⟩ := relinks_some hrow
    rw [Table.lookup_insert_eq] at hold
    split_ifs at hold with hkey
    · cases hold
      exact .inl ⟨_, by rw [hkey]; rfl, hrelinked⟩
    · refine .inr ⟨old, hold, hrelinked, ?_, fun _ hdeleted => by cases hdeleted⟩
      intro written heq
      cases heq
      exact Ne.symm hkey
  · obtain ⟨_, _, htree⟩ := removeTree_eq_some hremove.tree
    rw [htree] at hrow
    obtain ⟨old, hold, hrelinked⟩ := relinks_some hrow
    obtain ⟨hbefore, hkept⟩ := Tree.deleteEntry_lookup_some hold
    refine .inr ⟨old, hbefore, hrelinked, fun _ hwritten => (by cases hwritten), ?_⟩
    intro revision hdeleted
    cases hdeleted
    exact hkept rfl
  · obtain ⟨_, _, _, _, _, _, _, htree⟩ := renameTree_eq_some hrename.tree
    rw [htree] at hrow
    obtain ⟨old, hold, hrelinked⟩ := relinks_some hrow
    rw [Table.lookup_insert_eq] at hold
    split_ifs at hold with hkey
    · cases hold
      exact .inl ⟨_, by rw [hkey]; rfl, hrelinked⟩
    · obtain ⟨hbefore, hkept⟩ := Tree.deleteEntry_lookup_some hold
      refine .inr ⟨old, hbefore, hrelinked, ?_, ?_⟩
      · intro written heq
        cases heq
        exact Ne.symm hkey
      · intro revision hdeleted
        cases hdeleted
        exact hkept rfl
  · rw [hsame] at hrow
    refine .inr ⟨row, hrow, .inl rfl, ?_, ?_⟩
    · intro written hwritten
      rw [onNamespace_of_writtenEntry hwritten] at hother
      cases hother
    · intro revision hdeleted
      rw [onNamespace_of_deletedName hdeleted] at hother
      cases hother

/-! ### Versions -/

theorem Tree.exists_version_of_fileEntryMatches {tree : Tree} {objects : Objects}
    {directoryId fileId versionId : Identity} {sizeBytes : UInt64} {dataRoot : Digest}
    (h : tree.fileEntryMatches objects directoryId fileId versionId sizeBytes dataRoot = true) :
    ∃ version, objects.versions.lookup versionId = some version := by
  unfold Tree.fileEntryMatches at h
  split at h
  · rename_i version _ _ hversion _ _
    exact ⟨version, hversion⟩
  · cases h

theorem Committed.version_persists {db after : Database} {mutation : Mutation} (h : Committed db after mutation)
    {id : Identity} {version : VersionRow} (hversion : db.objects.versions.lookup id = some version) :
    ∃ found, after.objects.versions.lookup id = some found ∧ found.fileId = version.fileId := by
  rcases h.store_cases with ⟨batch, intent, rfl, hput⟩ | ⟨batch, rfl, hmkdir⟩ | ⟨batch, rfl, hremove⟩ |
    ⟨batch, rfl, hrename⟩ | ⟨_, _, locations, hobjects, _⟩
  · obtain ⟨_, hnone, _, _, hversions, _⟩ := putObjects_eq_some hput.objects
    refine ⟨version, ?_, rfl⟩
    rw [hversions, AList.lookup_insert_ne, hversion]
    intro heq
    rw [heq, hnone] at hversion
    cases hversion
  · exact ⟨version, by rw [hmkdir.objects, hversion], rfl⟩
  · rw [hremove.objects, removeObjects]
    split
    · exact ⟨version, hversion, rfl⟩
    · rw [Table.lookup_modify, hversion]
      split_ifs
      · refine ⟨_, rfl, ?_⟩
        dsimp only
        split_ifs
        · rfl
        · rfl
      · exact ⟨_, rfl, rfl⟩
  · exact ⟨version, by rw [hrename.objects, hversion], rfl⟩
  · exact ⟨version, by rw [hobjects, hversion], rfl⟩

theorem Committed.versionsExist {db after : Database} {mutation : Mutation} (h : Committed db after mutation)
    (hexist : VersionsExist db) : VersionsExist after := by
  intro key row fileId versionId sizeBytes dataRoot metadataRoot hrow hcontent
  rcases h.entry_cases hexist hrow with ⟨old, hwritten, hrelinked⟩ | ⟨old, hold, hrelinked, _⟩
  · have heq := hrelinked.eq_of_file hcontent
    rw [heq] at hcontent
    rcases h.tree_cases with ⟨batch, intent, rfl, hput⟩ | ⟨batch, rfl, _⟩ | ⟨batch, rfl, _⟩ |
      ⟨batch, rfl, hrename⟩ | ⟨hother, _⟩
    · rw [writtenEntry, hput.found, Option.map_some] at hwritten
      cases hwritten
      cases hcontent
      obtain ⟨_, _, _, _, hversions, _⟩ := putObjects_eq_some hput.objects
      rw [hversions]
      exact ⟨_, AList.lookup_insert _⟩
    · cases hwritten
      cases hcontent
    · cases hwritten
    · cases hwritten
      obtain ⟨_, _, directories, _, _, _, hmatches, _⟩ := renameTree_eq_some hrename.tree
      dsimp only at hcontent
      rw [hcontent] at hmatches
      rw [hrename.objects]
      exact Tree.exists_version_of_fileEntryMatches hmatches
    · rw [onNamespace_of_writtenEntry hwritten] at hother
      cases hother
  · rw [hrelinked.eq_of_file hcontent] at hcontent
    obtain ⟨version, hversion⟩ := hexist key old _ _ _ _ _ hold hcontent
    obtain ⟨found, hfound, _⟩ := h.version_persists hversion
    exact ⟨found, hfound⟩

variable {prims : Primitives} {permit : Instant → Mutation → Prop} {start : Database} {system : ControlState}

theorem Bootstrapped.versionsExist (hstart : Bootstrapped prims start) : VersionsExist start := by
  intro key row fileId versionId sizeBytes dataRoot metadataRoot hrow
  rw [hstart.entries] at hrow
  cases hrow

theorem versionsExist_of_reachable (hstart : Bootstrapped prims start) (hrun : Reachable prims permit start system) :
    VersionsExist system.state := by
  apply Reachable.state_invariant VersionsExist _ _ hstart.versionsExist hrun
  · intro before after hexist hdrift
    obtain ⟨_, _, _, rfl⟩ := hdrift
    exact hexist
  · intro moment mutation after hexist _ hcommitted
    exact hcommitted.versionsExist hexist

theorem versionsExist_of_before (hstart : Bootstrapped prims start) (hrun : Reachable prims permit start system)
    {past : Instant} (hpast : past.Before system.toMoment) : VersionsExist past.state := by
  obtain ⟨earlier, hearlier, _, hmoment⟩ := Machine.runs_of_before hrun hpast
  rw [← hmoment]
  exact versionsExist_of_reachable hstart hearlier

/-! ### Subjects -/

/-- No two entries pin the same file or the same directory. -/
def SubjectsUnique (db : Database) : Prop :=
  ∀ key key' row row', db.tree.entries.lookup key = some row → db.tree.entries.lookup key' = some row' →
    row.content.sameSubject row'.content = true → key = key'

theorem EntryContent.sameSubject_comm (left right : EntryContent) : left.sameSubject right = right.sameSubject left := by
  cases left with
  | file _ _ _ _ _ =>
      cases right with
      | file _ _ _ _ _ => exact Bool.beq_comm
      | directory _ _ => rfl
  | directory _ _ =>
      cases right with
      | file _ _ _ _ _ => rfl
      | directory _ _ => exact Bool.beq_comm

theorem EntryRow.Relinked.sameSubject {old new : EntryRow} (h : old.Relinked new) (content : EntryContent) :
    new.content.sameSubject content = old.content.sameSubject content := by
  rcases h with rfl | ⟨child, _, _, hold, hnew, _⟩
  · rfl
  · rw [hold, hnew]
    cases content with
    | file _ _ _ _ _ => rfl
    | directory _ _ => rfl

end Skydriver
