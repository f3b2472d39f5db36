import Skydriver.Control.Entries

/-!
# What an entry revision stands for

Clients name the entry they saw by its revision.  Within one life of a name each change increments the revision, but a
name that is removed and used again starts at one, and a rename brings the revision of the source with it, so a
revision may come back with another content.  It identifies one content in every run in which a new entry always gets
a revision above those its name had before.
-/

namespace Skydriver

/-- The name at which a batch inserts an entry, and the revision it gives it. -/
def insertedEntry (db : Database) : Mutation → Option ((Identity × Text) × Nat)
  | .putCommit batch =>
      (db.journal.putIntents.lookup batch.intentId).bind fun intent =>
        if intent.expectedEntryRevision = 0 then some ((intent.directoryId, intent.entryName), 1) else none
  | .mkdir batch => some ((batch.parentDirectoryId, batch.name), 1)
  | .rename batch =>
      some ((batch.target.destinationDirectoryId, batch.target.destinationName), batch.entry.revision + 1)
  | _ => none

/-- An inserted entry has a larger revision than every entry its name had before. -/
def RevisionFresh (moment : Instant) (mutation : Mutation) : Prop :=
  ∀ key revision, insertedEntry moment.state mutation = some (key, revision) →
    ∀ past : Instant, past.Before moment → ∀ row, past.state.tree.entries.lookup key = some row → row.revision < revision

/-- The name a batch expects to hold an entry of a given revision. -/
def expectedEntry (db : Database) : Mutation → Option ((Identity × Text) × Nat)
  | .putCommit batch =>
      (db.journal.putIntents.lookup batch.intentId).bind fun intent =>
        if intent.expectedEntryRevision = 0 then none
        else some ((intent.directoryId, intent.entryName), intent.expectedEntryRevision)
  | .remove batch => some ((batch.directoryId, batch.name), batch.expectedEntryRevision)
  | .rename batch =>
      some ((batch.target.sourceDirectoryId, batch.target.sourceName), batch.expectedSourceRevision)
  | _ => none

/-- The entries a batch acts on: what it finds under its name, and what its handler loaded. -/
inductive ActsOn (db : Database) : Mutation → EntryRow → Prop where
  | found {mutation : Mutation} {key : Identity × Text} {revision : Nat} {row : EntryRow}
      (hexpected : expectedEntry db mutation = some (key, revision)) (hrow : db.tree.entries.lookup key = some row) :
      ActsOn db mutation row
  | removed (batch : RemoveBatch) : ActsOn db (.remove batch) batch.entry
  | renamed (batch : RenameBatch) : ActsOn db (.rename batch) batch.entry

/-- Up to `now`, a name and a revision together identify one entry, and whoever expects that revision acts on that
entry. -/
structure RevisionsIdentify (now : Instant) : Prop where
  unique : ∀ first second : Instant, first.Before now → second.Before now → ∀ key row row',
    first.state.tree.entries.lookup key = some row → second.state.tree.entries.lookup key = some row' →
      row.revision = row'.revision → row = row'
  acts : ∀ (past : Instant) mutation after, (past.advance (some mutation) after).Before now →
    ∀ key revision, expectedEntry past.state mutation = some (key, revision) →
      ∀ seen : Instant, seen.Before now → ∀ row, seen.state.tree.entries.lookup key = some row →
        row.revision = revision → ∀ found, ActsOn past.state mutation found → found = row

/-! ### Revisions grow -/

/-- Each entry is an old one, replaces an old one of smaller revision, or goes back to the inserted one. -/
def EntriesGrow (inserted : Option ((Identity × Text) × Nat)) (old new : Table (Identity × Text) EntryRow) : Prop :=
  ∀ key row, new.lookup key = some row →
    old.lookup key = some row ∨ (∃ row', old.lookup key = some row' ∧ row'.revision < row.revision) ∨
      ∃ revision, inserted = some (key, revision) ∧ revision ≤ row.revision

theorem Committed.entriesGrow {db after : Database} {mutation : Mutation} (h : Committed db after mutation)
    (hexist : VersionsExist db) :
    EntriesGrow (insertedEntry db mutation) db.tree.entries after.tree.entries := by
  intro key row hrow
  rcases h.entry_cases hexist hrow with ⟨old, hwritten, hrelinked⟩ | ⟨old, hold, hrelinked, _⟩
  · have hle := hrelinked.revision_le
    rcases h.tree_cases with ⟨batch, intent, rfl, hput⟩ | ⟨batch, rfl, _⟩ | ⟨batch, rfl, _⟩ | ⟨batch, rfl, _⟩ |
      ⟨hother, _⟩
    · rw [writtenEntry, hput.found, Option.map_some] at hwritten
      cases hwritten
      rcases (hput.entries hexist).2 with ⟨hfresh, _⟩ | ⟨_, _, _, _, _, hlookup⟩
      · refine .inr (.inr ⟨1, ?_, ?_⟩)
        · simp only [insertedEntry, hput.found, Option.bind_some, if_pos hfresh]
        · dsimp only at hle
          omega
      · exact .inr (.inl ⟨_, hlookup, hle⟩)
    · cases hwritten
      exact .inr (.inr ⟨1, rfl, hle⟩)
    · cases hwritten
    · cases hwritten
      exact .inr (.inr ⟨batch.entry.revision + 1, rfl, hle⟩)
    · rw [onNamespace_of_writtenEntry hwritten] at hother
      cases hother
  · rcases hrelinked with rfl | ⟨_, _, _, _, _, hlt⟩
    · exact .inl hold
    · exact .inr (.inl ⟨old, hold, hlt⟩)

/-- Of two entries a name had, the later one is the same or has the larger revision. -/
def RevisionsGrow (now : Instant) : Prop :=
  ∀ first second : Instant, first.Before second → second.Before now → ∀ key row row',
    first.state.tree.entries.lookup key = some row → second.state.tree.entries.lookup key = some row' →
      row' = row ∨ row.revision < row'.revision

theorem RevisionsGrow.advance {now : Instant} {cause : Option Mutation} {after : Database}
    {inserted : Option ((Identity × Text) × Nat)} (h : RevisionsGrow now)
    (hgrow : EntriesGrow inserted now.state.tree.entries after.tree.entries)
    (hfresh : ∀ key revision, inserted = some (key, revision) → ∀ past : Instant, past.Before now → ∀ row,
      past.state.tree.entries.lookup key = some row → row.revision < revision) :
    RevisionsGrow (now.advance cause after) := by
  intro first second hfirst hsecond key row row' hrow hrow'
  rcases Moment.before_advance_iff.mp hsecond with rfl | hsecond
  · rcases Moment.before_advance_iff.mp hfirst with rfl | hfirst
    · rw [hrow] at hrow'
      exact .inl (Option.some.inj hrow').symm
    · rcases hgrow key row' hrow' with hold | ⟨middle, hold, hlt⟩ | ⟨revision, hinserted, hle⟩
      · exact h first now hfirst (.refl _) key row row' hrow hold
      · rcases h first now hfirst (.refl _) key row middle hrow hold with rfl | hlt'
        · exact .inr hlt
        · exact .inr (hlt'.trans hlt)
      · exact .inr ((hfresh key revision hinserted first hfirst row hrow).trans_le hle)
  · exact h first second hfirst hsecond key row row' hrow hrow'

theorem revisionsGrow_of_reachable {prims : Primitives} {start : Database} {system : ControlState}
    (hstart : Bootstrapped prims start) (hrun : Reachable prims RevisionFresh start system) :
    RevisionsGrow system.toMoment := by
  have hboth := Reachable.guarded_invariant (fun now => VersionsExist now.state ∧ RevisionsGrow now) ?_ ?_ ?_ hrun
  · exact hboth.2
  · intro moment after hinv hdrift
    have hgrow : EntriesGrow none moment.state.tree.entries after.tree.entries := by
      intro key row hrow
      rw [hdrift.tree_eq] at hrow
      exact .inl hrow
    refine ⟨?_, hinv.2.advance hgrow ?_⟩
    · obtain ⟨_, _, _, rfl⟩ := hdrift
      exact hinv.1
    · intro key revision hinserted
      cases hinserted
  · intro moment mutation after hinv _ hfresh hcommitted
    exact ⟨hcommitted.versionsExist hinv.1, hinv.2.advance (hcommitted.entriesGrow hinv.1) hfresh⟩
  · refine ⟨hstart.versionsExist, ?_⟩
    intro first second hfirst hsecond key row row' hrow hrow'
    rw [Moment.before_start_iff.mp hsecond] at hfirst hrow'
    rw [Moment.before_start_iff.mp hfirst, hrow'] at hrow
    exact .inl (Option.some.inj hrow)

/-! ### What a batch finds under its name -/

/-- A batch that deletes a name under a revision, and leaves it free, found that revision there or nothing. -/
theorem revision_of_deleted {tree : Tree} {directoryId : Identity} {name : Text} {revision : Nat}
    (hgone : (tree.deleteEntry directoryId name revision).entries.lookup (directoryId, name) = none) {row : EntryRow}
    (hrow : tree.entries.lookup (directoryId, name) = some row) : row.revision = revision := by
  rw [Tree.deleteEntry_lookup] at hgone
  split_ifs at hgone with hmatch
  · rw [hrow, Option.any_some] at hmatch
    exact beq_iff_eq.mp hmatch.2
  · rw [hrow] at hgone
    cases hgone

theorem RemoveCommitted.found_revision {batch : RemoveBatch} {db after : Database} (h : RemoveCommitted batch db after)
    {row : EntryRow} (hrow : db.tree.entries.lookup (batch.directoryId, batch.name) = some row) :
    row.revision = batch.expectedEntryRevision := by
  obtain ⟨_, hproof, htree⟩ := removeTree_eq_some h.tree
  simp only [removeProofApplied, Bool.and_eq_true, Option.isNone_iff_eq_none] at hproof
  apply revision_of_deleted _ hrow
  rw [Option.eq_none_iff_forall_ne_some]
  intro found hfound
  obtain ⟨new, hnew, _⟩ := relinks_of_some (batch.plan.links.take batch.plan.directories.length) hfound
  rw [htree] at hproof
  rw [hproof.1.2] at hnew
  cases hnew

theorem RenameCommitted.found_revision {batch : RenameBatch} {db after : Database} (h : RenameCommitted batch db after)
    (hdistinct : ¬(batch.target.sourceDirectoryId = batch.target.destinationDirectoryId ∧
      batch.target.sourceName = batch.target.destinationName)) {row : EntryRow}
    (hrow : db.tree.entries.lookup (batch.target.sourceDirectoryId, batch.target.sourceName) = some row) :
    row.revision = batch.expectedSourceRevision := by
  obtain ⟨_, hproof, _, _, _, _, _, htree⟩ := renameTree_eq_some h.tree
  simp only [renameProofApplied, Bool.and_eq_true, Option.isNone_iff_eq_none] at hproof
  apply revision_of_deleted _ hrow
  rw [Option.eq_none_iff_forall_ne_some]
  intro found hfound
  have hother : (batch.target.sourceDirectoryId, batch.target.sourceName) ≠
      (batch.target.destinationDirectoryId, batch.target.destinationName) := by
    intro heq
    exact hdistinct (Prod.mk.inj heq)
  obtain ⟨new, hnew, _⟩ := relinks_of_some batch.plan.links ((AList.lookup_insert_ne hother).trans hfound)
  rw [htree] at hproof
  rw [hproof.1.2] at hnew
  cases hnew

theorem onNamespace_of_expectedEntry {db : Database} {mutation : Mutation} {expected : (Identity × Text) × Nat}
    (h : expectedEntry db mutation = some expected) : mutation.onNamespace = true := by
  cases mutation <;> first | rfl | cases h

theorem seen_of_actsOn {prims : Primitives} {past : Instant} {mutation : Mutation} {after : Database}
    (horigin : Origin prims mutation past) (hcommitted : Committed past.state after mutation)
    (hexist : VersionsExist past.state) {key : Identity × Text} {revision : Nat} {found : EntryRow}
    (hexpected : expectedEntry past.state mutation = some (key, revision)) (hacts : ActsOn past.state mutation found) :
    ∃ seen : Instant, seen.Before past ∧ seen.state.tree.entries.lookup key = some found ∧
      found.revision = revision := by
  cases hacts with
  | @found _ _ _ _ hexpected' hrow =>
      rw [hexpected] at hexpected'
      cases hexpected'
      refine ⟨past, .refl _, hrow, ?_⟩
      rcases hcommitted.tree_cases with ⟨batch, intent, rfl, hput⟩ | ⟨batch, rfl, _⟩ | ⟨batch, rfl, hremove⟩ |
        ⟨batch, rfl, hrename⟩ | ⟨hother, _⟩
      · simp only [expectedEntry, hput.found, Option.bind_some] at hexpected
        split_ifs at hexpected with hexisting
        cases hexpected
        rcases (hput.entries hexist).2 with ⟨hfresh, _⟩ | ⟨_, _, _, _, _, hlookup⟩
        · exact absurd hfresh hexisting
        · rw [hrow] at hlookup
          cases hlookup
          rfl
      · cases hexpected
      · cases hexpected
        exact hremove.found_revision hrow
      · cases hexpected
        exact hrename.found_revision horigin.distinct hrow
      · rw [onNamespace_of_expectedEntry hexpected] at hother
        cases hother
  | removed batch =>
      cases hexpected
      obtain ⟨seen, hseen, hload⟩ := horigin.loaded
      exact ⟨seen, hseen, (loadEntry_eq_some hload).1, horigin.revision⟩
  | renamed batch =>
      cases hexpected
      obtain ⟨seen, hseen, hload⟩ := horigin.loaded
      exact ⟨seen, hseen, (loadEntry_eq_some hload).1, horigin.revision⟩

/-- In every run in which new entries get new revisions, a revision identifies one entry, and whoever expects it acts on
that entry. -/
theorem revisions_identify {prims : Primitives} {start : Database} {system : ControlState}
    (hstart : Bootstrapped prims start) (hrun : Reachable prims RevisionFresh start system) :
    RevisionsIdentify system.toMoment := by
  have hgrow := revisionsGrow_of_reachable hstart hrun
  have hunique : ∀ first second : Instant, first.Before system.toMoment → second.Before system.toMoment →
      ∀ key row row', first.state.tree.entries.lookup key = some row →
        second.state.tree.entries.lookup key = some row' → row.revision = row'.revision → row = row' := by
    intro first second hfirst hsecond key row row' hrow hrow' hrevision
    rcases hfirst.total hsecond with hbefore | hbefore
    · rcases hgrow first second hbefore hsecond key row row' hrow hrow' with heq | hlt
      · exact heq.symm
      · omega
    · rcases hgrow second first hbefore hfirst key row' row hrow' hrow with heq | hlt
      · exact heq
      · omega
  refine ⟨hunique, ?_⟩
  intro past mutation after hstep key revision hexpected seen hseen row hrow hrevision found hacts
  have hpast := ((Moment.Before.refl past).advance (some mutation) after).trans hstep
  have hexist := versionsExist_of_before hstart hrun hpast
  obtain ⟨horigin, _, hcommitted⟩ := hrun.committed hstep
  obtain ⟨loaded, hloaded, hfound, hexpects⟩ := seen_of_actsOn horigin hcommitted hexist hexpected hacts
  exact hunique loaded seen (hloaded.trans hpast) hseen key found row hfound hrow (hexpects.trans hrevision.symm)

namespace Sample

/-- The test of a new revision against the past. -/
def freshRevision (moment : Instant) (mutation : Mutation) : Bool :=
  (insertedEntry moment.state mutation).all fun inserted =>
    (moment.state :: moment.trace.map Prod.snd).all fun db =>
      (db.tree.entries.lookup inserted.1).all fun row => row.revision < inserted.2

theorem revisionFresh_of_freshRevision (moment : Instant) (mutation : Mutation)
    (h : freshRevision moment mutation = true) : RevisionFresh moment mutation := by
  intro key revision hinserted past hpast row hrow
  rw [freshRevision, hinserted, Option.all_some, List.all_eq_true] at h
  have hmem : past.state ∈ moment.state :: moment.trace.map Prod.snd := by
    rcases hpast.state_mem with heq | ⟨step, hstep, heq⟩
    · exact heq ▸ List.mem_cons_self
    · exact List.mem_cons_of_mem _ (heq ▸ List.mem_map_of_mem hstep)
  have hrevision := h past.state hmem
  rw [hrow, Option.all_some] at hrevision
  exact of_decide_eq_true hrevision

def removedFile : List (Machine.Event Request Database Answer) :=
  putAll 0 0 root [97] 0 ++ complete 2 (removeRequest 1 root [97] 1)

def reusedName : List (Machine.Event Request Database Answer) := removedFile ++ putAll 3 2 root [97] 0

end Sample

theorem revisions_identify_removedFile : RevisionsIdentify (Sample.run Sample.removedFile).toMoment := by
  apply revisions_identify Sample.bootstrapped_database
  apply Sample.reachable_run Sample.revisionFresh_of_freshRevision
  · intro change hmem
    simp [Sample.removedFile, Sample.putAll, Sample.complete, Sample.advances] at hmem
  · decide +kernel

/-- The second file has the revision that the first one had. -/
theorem revision_reused :
    Bootstrapped Sample.prims Sample.database ∧
      ∃ system, Reachable Sample.prims anyBatch Sample.database system ∧ ¬RevisionsIdentify system.toMoment := by
  refine ⟨Sample.bootstrapped_database, Sample.run Sample.reusedName, ?_, ?_⟩
  · apply Sample.reachable_any_run
    intro change hmem
    simp [Sample.reusedName, Sample.removedFile, Sample.putAll, Sample.complete, Sample.advances] at hmem
  · intro hidentify
    have hbefore : (Sample.run (Sample.putAll 0 0 Sample.root [97] 0)).toMoment.Before
        (Sample.run Sample.reusedName).toMoment :=
      (Sample.before_run_append _ _).trans (Sample.before_run_append _ _)
    have hfirst : (Sample.run (Sample.putAll 0 0 Sample.root [97] 0)).state.tree.entries.lookup (Sample.root, [97]) =
        some ⟨.file (Sample.fresh 1) (Sample.fresh 2) 10 (.ofByte 31 1) (.ofByte 31 1), 1⟩ := by decide +kernel
    have hsecond : (Sample.run Sample.reusedName).state.tree.entries.lookup (Sample.root, [97]) =
        some ⟨.file (Sample.fresh 21) (Sample.fresh 22) 10 (.ofByte 31 3) (.ofByte 31 1), 1⟩ := by decide +kernel
    have hsame := hidentify.unique _ _ hbefore (.refl _) _ _ _ hfirst hsecond rfl
    exact absurd hsame (by decide)

end Skydriver
