import Skydriver.Control.CatalogHistory
import Skydriver.Control.RenameCarried
import Skydriver.Control.Replay
import Skydriver.Lib.Observing

/-!
# The namespace as a serial history

Handlers read a row here and a listing there, while other batches commit.  Still every batch that commits was planned as
on the very state it commits on, so that the namespace is at any time what the committed edits make of it one after the
other, with every directory root computed anew.  A removal or rename must find the entry that its handler loaded, and no
two listings that plans tell apart may have one root.
-/

namespace Skydriver

/-! ### Plans of the state they commit on -/

/-- The plan of a batch is what its planner plans on a state that nobody else changes. -/
def PlannedOn (prims : Primitives) (db : Database) : Mutation → Prop
  | .putCommit batch => ∃ intent, db.journal.putIntents.lookup batch.intentId = some intent ∧
      (planDirectoryRoots prims intent : Planner).readOn db = some (.planned batch.plan)
  | .mkdir batch => (planNewChildDirectoryRoots prims batch.filesystemId batch.parentDirectoryId batch.childDirectoryId
      batch.name batch.emptyRoot : Planner).readOn db = some (.planned batch.plan)
  | .remove batch => (planEntryRemovalRoots prims batch.filesystemId batch.directoryId batch.name
      batch.expectedEntryRevision : Planner).readOn db = some (.planned batch.plan)
  | .rename batch => (planEntryRenameRoots prims batch.filesystemId batch.target batch.expectedSourceRevision :
      Planner).readOn db = some (.planned batch.plan)
  | _ => True

/-- The file that a put publishes is in the state that its planner calls for. -/
theorem PutCommitted.filePrecondition {batch : PutCommitBatch} {intent : PutIntentRow} {db after : Database}
    (h : PutCommitted batch intent db after) (hexist : VersionsExist db) (hlive : FilesLive db) :
    filePrecondition intent (db.objects.files.lookup intent.fileId) = true := by
  obtain ⟨hfiles, hversion, _⟩ := putObjects_eq_some h.objects
  have hpublished := h.published
  simp only [putPublished, Bool.and_eq_true, Option.any_eq_true, beq_iff_eq] at hpublished
  obtain ⟨⟨⟨⟨⟨⟨file, hfile, ⟨_, hcurrent⟩, _⟩, _⟩, _⟩, _⟩, _⟩, _⟩ := hpublished
  obtain ⟨_, hbefore⟩ := h.entries hexist
  generalize after.objects.files = files at hfiles hfile
  cases hfiles with
  | inserted hfresh hnone => rw [Skydriver.filePrecondition, if_pos hfresh, hnone, Option.isNone_none]
  | replaced hexisting =>
      rcases hbefore with ⟨hfresh, _⟩ | ⟨_, versionId, sizeBytes, dataRoot, metadataRoot, hreplaced⟩
      · exact absurd hfresh hexisting
      obtain ⟨old, hold, hactive, holdCurrent⟩ := (hlive.live hreplaced).file
      rw [Table.lookup_modify_self, hold, Option.map_some, Option.some.injEq] at hfile
      by_cases hmatch : old.revision = intent.expectedFileRevision ∧
          old.currentVersionId = intent.expectedCurrentVersionId ∧ old.currentVersionId.isSome
      · rw [Skydriver.filePrecondition, if_neg hexisting, hold, Option.any_some, hactive, hmatch.1, hmatch.2.1]
        simp
      · -- the file would still point to an older version
        rw [if_neg hmatch] at hfile
        rw [← hfile, holdCurrent, Option.some.injEq] at hcurrent
        obtain ⟨version, hfound⟩ := hexist _ _ _ _ _ _ _ hreplaced rfl
        rw [hcurrent, hversion] at hfound
        cases hfound

section Batches

variable {prims : Primitives} {now : Instant} {after : Database}

theorem PutCommitted.plannedOn {batch : PutCommitBatch} {intent : PutIntentRow}
    (h : PutCommitted batch intent now.state after) (hexist : VersionsExist now.state) (hlive : FilesLive now.state)
    (hchain : ChainNow prims now intent.filesystemId intent.directoryId (putEdit intent) batch.plan) :
    PlannedOn prims now.state (.putCommit batch) := by
  refine ⟨intent, h.found, ?_⟩
  rw [planDirectoryRoots, Program.readOn_bind]
  simp only [Program.query, Program.readOn_read, Program.readOn_done, Option.bind_some]
  rw [if_pos (h.filePrecondition hexist hlive)]
  exact hchain.climb.readOn_planChain hchain.short

end Batches

/-! ### The invariant -/

/-- The revision at the head of every filesystem records the root that its root directory has. -/
structure CatalogCurrent (db : Database) : Prop where
  root : ∀ {filesystemId head revision}, db.journal.mutationHeads.lookup filesystemId = some head →
    db.journal.catalogRevisions.lookup head.revisionId = some revision → ∀ {id row},
      db.tree.directories.lookup id = some row → row.parentId = none → row.filesystemId = filesystemId →
        row.dataRoot = revision.rootDataRoot

theorem CatalogCurrent.publish {db after : Database} {published : Publication} (h : CatalogCurrent db)
    (hlinear : CatalogLinear db.journal) (hpublish : Publishes published db.journal after.journal)
    (hrerooted : db.tree.Rerooted published.filesystemId published.rootDataRoot after.tree) : CatalogCurrent after := by
  constructor
  intro filesystemId head revision hhead hrevision id row hrow hparent hfilesystem
  rw [hpublish.heads, Table.lookup_insert_eq] at hhead
  rw [hpublish.revisions, Table.lookup_insert_eq] at hrevision
  split_ifs at hhead with hsame
  · cases hhead
    rw [if_pos rfl] at hrevision
    cases hrevision
    exact hrerooted.top hrow hparent (hfilesystem.trans hsame)
  · obtain ⟨⟨found, hfound, _⟩, _⟩ := hlinear.heads hhead
    rw [if_neg (Nat.ne_of_lt (hlinear.below hfound))] at hrevision
    exact h.root hhead hrevision (hrerooted.others hrow hparent fun heq => hsame (hfilesystem.symm.trans heq)) hparent
      hfilesystem

theorem CatalogCurrent.keep {db after : Database} (h : CatalogCurrent db)
    (hkeeps : KeepsCatalog db.journal after.journal) (htree : after.tree = db.tree) : CatalogCurrent after := by
  constructor
  intro filesystemId head revision hhead hrevision id row hrow
  rw [hkeeps.heads] at hhead
  rw [hkeeps.revisions] at hrevision
  rw [htree] at hrow
  exact h.root hhead hrevision hrow

/-- What every moment of a run has behind it: rows, entries and roots agreed all along, and the namespace is the
replay of the edits. -/
structure Sound (prims : Primitives) (start : Tree) (now : Instant) : Prop where
  steady : Steady prims now
  versions : VersionsExist now.state
  subjects : SubjectsUnique now.state
  files : FilesLive now.state
  intents : now.Related IntentsEvolve
  linear : CatalogLinear now.state.journal
  current : CatalogCurrent now.state
  replayed : now.state.tree.SameRows (replayEdits prims start now)

theorem Tree.Pinned.of_eq {old new : Tree} (h : new = old) : old.Pinned new := h ▸ .refl old

theorem Committed.tree_of_no_edit {db after : Database} {mutation : Mutation} (h : Committed db after mutation)
    (hnone : NamespaceEdit.ofMutation db mutation = none) : after.tree = db.tree := by
  rcases h.tree_cases with ⟨batch, intent, rfl, hput⟩ | ⟨batch, rfl, _⟩ | ⟨batch, rfl, _⟩ | ⟨batch, rfl, _⟩ |
    ⟨_, hsame⟩
  · rw [NamespaceEdit.ofMutation, hput.found] at hnone
    cases hnone
  · cases hnone
  · cases hnone
  · cases hnone
  · exact hsame

theorem Steady.advance {prims : Primitives} {now : Instant} {cause : Option Mutation} {after : Database}
    (h : Steady prims now) (hsettled : after.tree.Settled prims) (hpinned : now.state.tree.Pinned after.tree) :
    Steady prims (now.advance cause after) where
  settled := by
    intro past hpast
    rcases Moment.before_advance_iff.mp hpast with rfl | hbefore
    · exact hsettled
    · exact h.settled hbefore
  pinned := by
    intro first second hfirst hsecond
    have hrelated : Moment.Related (fun before after : Database => before.tree.Pinned after.tree) now :=
      fun first second hfirst hsecond => h.pinned hfirst hsecond
    exact hrelated.advance (fun db => .refl db.tree) (fun h h' => h.trans h') hpinned first second hfirst hsecond

section Steps

variable {prims : Primitives} {start : Tree} {now : Instant} {mutation : Mutation} {after : Database}

/-- What a batch of the namespace does: its plan is the plan of the state it commits on, so it makes its edit and
recomputes every root. -/
structure Serialized (prims : Primitives) (now : Instant) (mutation : Mutation) (after : Database)
    (edit : NamespaceEdit) (published : Publication) : Prop where
  planned : PlannedOn prims now.state mutation
  made : NamespaceEdit.ofMutation now.state mutation = some edit
  logged : publication now.state mutation = some published
  carried : now.state.tree.Carried prims published.filesystemId published.rootDataRoot (edit.edited now.state.tree)
    after.tree

/-- One batch: a batch of the namespace is serialized, and any other leaves the namespace alone. -/
theorem Sound.serialized (h : Sound prims start now) (horigin : Origin prims mutation now)
    (hunchanged : EntryUnchanged now mutation) (hbind : RootsBind prims now mutation)
    (hcommitted : Committed now.state after mutation) :
    (∃ edit published, Serialized prims now mutation after edit published) ∨
      (NamespaceEdit.ofMutation now.state mutation = none ∧ publication now.state mutation = none) := by
  have hsettled := h.steady.settled (.refl now)
  have hadvance := hcommitted.rowsAdvance
  have hrooted := hcommitted.shapeChange.rooted hsettled.rooted
  have hlinked := hcommitted.linked h.versions h.subjects hunchanged hsettled.linked
  rcases hcommitted.tree_cases with ⟨batch, intent, rfl, hput⟩ | ⟨batch, rfl, hmkdir⟩ | ⟨batch, rfl, hremove⟩ |
    ⟨batch, rfl, hrename⟩ | ⟨hother, _⟩
  · obtain ⟨read, hread⟩ := horigin
    have hchain := hput.chainNow h.steady (fun past hpast => h.intents past now hpast (.refl now)) hread
    refine .inl ⟨.put intent, ⟨intent.filesystemId, .put, batch.intentId, batch.plan.root, batch.now⟩,
      hput.plannedOn h.versions h.files hchain, ?_, ?_, ?_⟩
    · rw [NamespaceEdit.ofMutation, hput.found, Option.map_some]
    · rw [publication, hput.found, Option.map_some]
    · exact hchain.climb.carried (hput.edited h.versions hsettled hrooted hlinked hchain.climb) hsettled
        (hput.tree_eq h.versions) hadvance
  · have hchain := hmkdir.chainNow h.steady horigin.2
    refine .inl ⟨.mkdir batch, _, hchain.climb.readOn_planChain hchain.short, rfl, rfl, ?_⟩
    exact hchain.climb.carried (hmkdir.edited horigin.1 hsettled hrooted hlinked hchain.climb) hsettled hmkdir.tree_eq
      hadvance
  · have hchain := hremove.chainNow h.steady horigin hunchanged hbind
    refine .inl ⟨.remove batch, _, hchain.climb.readOn_planChain hchain.short, rfl, rfl, ?_⟩
    exact hchain.climb.carried (hremove.edited hunchanged horigin.revision hsettled hrooted hlinked hchain.climb)
      hsettled (hremove.tree_eq hunchanged horigin.revision) hadvance
  · obtain ⟨hplan, _⟩ := hrename.readOn h.steady horigin hunchanged hbind
    exact .inl ⟨.rename batch.target batch.entry, _, hplan, rfl, rfl,
      hrename.carried h.steady horigin hunchanged hbind hadvance⟩
  · right
    cases mutation with
    | putCommit _ => cases hother
    | mkdir _ => cases hother
    | remove _ => cases hother
    | rename _ => cases hother
    | _ => exact ⟨rfl, rfl⟩

/-- Every batch keeps the invariant. -/
theorem Sound.commit (h : Sound prims start now) (horigin : Origin prims mutation now)
    (hunchanged : EntryUnchanged now mutation) (hbind : RootsBind prims now mutation)
    (hcommitted : Committed now.state after mutation) : Sound prims start (now.advance (some mutation) after) := by
  have hversions := hcommitted.versionsExist h.versions
  have hsubjects := hcommitted.subjectsUnique h.versions h.subjects
  have hfiles := hcommitted.filesLive h.versions h.subjects hunchanged h.files
  have hintents : Moment.Related IntentsEvolve (now.advance (some mutation) after) :=
    h.intents.advance (fun _ => .of_eq rfl) (fun h h' => h.trans h') hcommitted.intentsEvolve
  have hreplay := replayEdits_advance prims start now (some mutation) after
  rw [Option.bind_some] at hreplay
  rcases h.serialized horigin hunchanged hbind hcommitted with ⟨edit, published, hserialized⟩ | ⟨hnone, hquiet⟩
  · have hcarried := hserialized.carried
    rcases hcommitted.publishes with ⟨found, hfound, hpublish⟩ | ⟨hno, _⟩
    · rw [hserialized.logged, Option.some.injEq] at hfound
      subst hfound
      refine ⟨h.steady.advance hcarried.settled hcarried.pinned, hversions, hsubjects, hfiles, hintents,
        h.linear.publish hpublish, h.current.publish h.linear hpublish hcarried.rerooted, ?_⟩
      rw [hreplay, hserialized.made, Option.elim_some]
      exact hcarried.same.trans (NamespaceEdit.apply_sameRows h.replayed prims edit)
    · rw [hserialized.logged] at hno
      cases hno
  · have htree := hcommitted.tree_of_no_edit hnone
    rcases hcommitted.publishes with ⟨found, hfound, _⟩ | ⟨_, hkeeps⟩
    · rw [hquiet] at hfound
      cases hfound
    · refine ⟨h.steady.advance (htree ▸ h.steady.settled (.refl now)) (.of_eq htree), hversions, hsubjects, hfiles,
        hintents, h.linear.keep hkeeps, h.current.keep hkeeps htree, ?_⟩
      rw [hreplay, hnone, Option.elim_none]
      exact htree ▸ h.replayed

theorem Sound.drift (h : Sound prims start now) (hdrift : Drift now.state after) :
    Sound prims start (now.advance none after) := by
  obtain ⟨authority, lifecycle, surroundings, rfl⟩ := hdrift
  have hsettled := h.steady.settled (.refl now)
  refine ⟨h.steady.advance hsettled (.refl _), h.versions, h.subjects, ⟨fun hrow => ?_⟩,
    h.intents.advance (fun _ => .of_eq rfl) (fun h h' => h.trans h') (.of_eq rfl), h.linear, ⟨h.current.root⟩, ?_⟩
  · obtain ⟨hfile, hversion, hlocation⟩ := h.files.live hrow
    exact ⟨hfile, hversion, hlocation⟩
  · rw [replayEdits_advance]
    exact h.replayed

end Steps

/-! ### Along a run -/

theorem isSome_ofMutation (db : Database) (mutation : Mutation) :
    (NamespaceEdit.ofMutation db mutation).isSome = (publication db mutation).isSome := by
  cases mutation with
  | putCommit batch => rw [NamespaceEdit.ofMutation, publication, Option.isSome_map, Option.isSome_map]
  | _ => rfl

theorem length_publications (now : Instant) : (publications now).length = (namespaceEdits now).length := by
  rw [publications, namespaceEdits, List.length_filterMap_eq_countP, List.length_filterMap_eq_countP]
  congr 1
  funext step
  obtain ⟨cause, db⟩ := step
  cases cause with
  | none => rfl
  | some mutation => exact (isSome_ofMutation db mutation).symm

section Runs

variable {prims : Primitives} {start : Database} {system : ControlState} {permit : Instant → Mutation → Prop}

theorem reachable_initial (permit : Instant → Mutation → Prop) :
    Reachable prims permit start (Machine.initial start) := .refl

theorem Bootstrapped.settled (hstart : Bootstrapped prims start) : start.tree.Settled prims where
  rooted := rooted_of_reachable hstart (reachable_initial anyBatch)
  linked := linked_of_reachable (fun _ _ h => h) hstart (reachable_initial EntryUnchanged)
  childRoot := fun hentry _ => (hstart.no_entry hentry).elim
  roots := by
    intro id row hrow _
    rw [Tree.listing_eq_nil fun name row hentry => hstart.no_entry hentry]
    exact (hstart.roots id row hrow).2.2
  housed := fun hentry => (hstart.no_entry hentry).elim
  emptied := fun hrow _ => (hstart.roots _ _ hrow).2.2

theorem Bootstrapped.sound (hstart : Bootstrapped prims start) : Sound prims start.tree ⟨start, []⟩ where
  steady := by
    constructor
    · intro past hpast
      rw [Moment.before_start_iff.mp hpast]
      exact hstart.settled
    · intro first second hfirst hsecond
      have hend := Moment.before_start_iff.mp hsecond
      subst hend
      rw [Moment.before_start_iff.mp hfirst]
      exact .refl start.tree
  versions := hstart.versionsExist
  subjects := subjectsUnique_of_reachable hstart (reachable_initial anyBatch)
  files := ⟨fun hentry => (hstart.no_entry hentry).elim⟩
  intents := by
    intro first second hfirst hsecond
    have hend := Moment.before_start_iff.mp hsecond
    subst hend
    rw [Moment.before_start_iff.mp hfirst]
    exact .of_eq rfl
  linear := catalogLinear_of_reachable hstart (reachable_initial anyBatch)
  current := by
    constructor
    intro filesystemId head revision hhead
    obtain ⟨next, hjournal⟩ := hstart.journal
    dsimp only at hhead
    rw [hjournal] at hhead
    cases hhead
  replayed := ⟨fun _ => rfl, fun _ => rfl⟩

theorem sound_of_reachable
    (hpermit : ∀ moment mutation, permit moment mutation → EntryUnchanged moment mutation ∧ RootsBind prims moment mutation)
    (hstart : Bootstrapped prims start) (hrun : Reachable prims permit start system) :
    Sound prims start.tree system.toMoment := by
  apply Reachable.guarded_invariant (Sound prims start.tree) _ _ hstart.sound hrun
  · intro moment after hsound hdrift
    exact hsound.drift hdrift
  · intro moment mutation after hsound horigin hpermitted hcommitted
    obtain ⟨hunchanged, hbind⟩ := hpermit moment mutation hpermitted
    exact hsound.commit horigin hunchanged hbind hcommitted

/-- In every run whose removals and renames find the entries that they loaded, and whose plans meet no collision of
roots, a batch that commits carries the plan that its planner makes on the very state the batch commits on, whatever
committed between its reads. -/
theorem plans_are_current
    (hpermit : ∀ moment mutation, permit moment mutation → EntryUnchanged moment mutation ∧ RootsBind prims moment mutation)
    (hstart : Bootstrapped prims start) (hrun : Reachable prims permit start system) {mutation : Mutation} {db : Database}
    (hmem : (some mutation, db) ∈ system.trace) : PlannedOn prims db mutation := by
  obtain ⟨past, after, rfl, hpast⟩ := Machine.before_of_mem_trace hrun hmem
  obtain ⟨horigin, hpermitted, hcommitted⟩ := hrun.committed hpast
  obtain ⟨hunchanged, hbind⟩ := hpermit past mutation hpermitted
  have hearly : past.Before system.toMoment := ((Moment.Before.refl past).advance (some mutation) after).trans hpast
  obtain ⟨earlier, hfirst, _, rfl⟩ := Machine.runs_of_before hrun hearly
  have hsound := sound_of_reachable hpermit hstart hfirst
  rcases hsound.serialized horigin hunchanged hbind hcommitted with ⟨_, _, hserialized⟩ | ⟨hnone, _⟩
  · exact hserialized.planned
  · cases mutation with
    | putCommit batch =>
        rcases hcommitted.tree_cases with ⟨_, intent, heq, hput⟩ | ⟨_, heq, _⟩ | ⟨_, heq, _⟩ | ⟨_, heq, _⟩ | ⟨hother, _⟩
        · cases heq
          rw [NamespaceEdit.ofMutation, hput.found] at hnone
          cases hnone
        · cases heq
        · cases heq
        · cases heq
        · cases hother
    | mkdir _ => cases hnone
    | remove _ => cases hnone
    | rename _ => cases hnone
    | _ => trivial

/-- In every such run rows, entries and roots agree: the directories of each filesystem form one tree, each entry names
an active child and carries its root, the root of a directory is the one of its listing, and the revision at the head of
the catalog records the root of the filesystem. -/
theorem namespace_consistent
    (hpermit : ∀ moment mutation, permit moment mutation → EntryUnchanged moment mutation ∧ RootsBind prims moment mutation)
    (hstart : Bootstrapped prims start) (hrun : Reachable prims permit start system) :
    system.state.tree.Settled prims ∧ CatalogCurrent system.state := by
  have hsound := sound_of_reachable hpermit hstart hrun
  exact ⟨hsound.steady.settled (.refl system.toMoment), hsound.current⟩

/-- In every such run the namespace is what its committed edits make of the first one, in the order in which they
committed and with every root computed anew after each, and each edit took one revision of the catalog. -/
theorem namespace_serializable
    (hpermit : ∀ moment mutation, permit moment mutation → EntryUnchanged moment mutation ∧ RootsBind prims moment mutation)
    (hstart : Bootstrapped prims start) (hrun : Reachable prims permit start system) :
    system.state.tree.SameRows (replayEdits prims start.tree system.toMoment) ∧
      system.state.journal.nextCatalogRevision =
        start.journal.nextCatalogRevision + (namespaceEdits system.toMoment).length := by
  refine ⟨(sound_of_reachable hpermit hstart hrun).replayed, ?_⟩
  rw [(catalogLogs_of_reachable hstart hrun).next, length_publications]

end Runs

namespace Sample

/-- Two directories made at the same time, after a first one; one of them moves into the first one and is removed. -/
def interleaved : List (Machine.Event Request Database Answer) :=
  complete 0 (createRequest 0 root [97]) ++ .request (createRequest 1 root [98]) :: advances 1 8 ++
    complete 2 (createRequest 2 root [99]) ++ advances 1 16 ++
    complete 3 (renameRequest 3 root [98] 1 (fresh 1) [100]) ++ complete 4 (removeRequest 4 (fresh 1) [100] 2)

/-- Two listings are told apart by their roots. -/
def listingsBind (left right : List DirectoryMerkleEntry) : Bool :=
  (directoryMerkleRoot prims left).toOption != (directoryMerkleRoot prims right).toOption || left.isPerm right

theorem listingsBind_of_check {left right : List DirectoryMerkleEntry} (h : listingsBind left right = true) :
    ListingsBind prims left right := by
  intro root hleft hright
  simp only [listingsBind, hleft, hright, Except.toOption, bne_self_eq_false, Bool.false_or] at h
  exact List.isPerm_iff.mp h

def states (moment : Instant) : List Database := moment.state :: moment.trace.map Prod.snd

theorem state_mem_states {past moment : Instant} (h : past.Before moment) : past.state ∈ states moment := by
  rcases h.state_mem with hnow | ⟨step, hstep, hstate⟩
  · rw [hnow]
    exact List.mem_cons_self
  · rw [← hstate]
    exact List.mem_cons_of_mem _ (List.mem_map_of_mem hstep)

/-- The listings of a tree that are not empty, and the one of `id`. -/
def listings (id : Identity) (tree : Tree) : List (Identity × List StoredEntry) :=
  (id :: tree.entries.entries.map fun row => row.1.1).map fun other => (other, tree.storedEntries other)

/-- `RootsBind`, decided on the recorded states. -/
def rootsBind (moment : Instant) : Mutation → Bool
  | .remove batch => batch.plan.directories.all fun update =>
      listingsBind update.newEntries (moment.state.tree.listing update.directoryId)
  | .rename batch =>
      (batch.plan.directories.all fun update =>
        listingsBind update.newEntries (moment.state.tree.listing update.directoryId)) &&
      ((states moment).flatMap fun db => db.tree.storedEntries batch.target.sourceDirectoryId).dedup.all fun moved =>
        batch.plan.directories.inits.all fun seen =>
          ((states moment).flatMap fun db => listings batch.target.destinationDirectoryId db.tree).dedup.all fun found =>
            listingsBind (renameEntries batch.target (renamedEntry batch.target.destinationName moved.entry) seen found.1
              found.2).1 (found.2.map StoredEntry.entry)
  | _ => true

theorem mem_listings {id other : Identity} {tree : Tree} (h : other = id ∨ tree.storedEntries other ≠ []) :
    (other, tree.storedEntries other) ∈ listings id tree := by
  apply List.mem_map_of_mem
  rcases h with rfl | hfilled
  · exact List.mem_cons_self
  · obtain ⟨stored, hstored⟩ := List.exists_mem_of_ne_nil _ hfilled
    obtain ⟨name, row, hrow, _⟩ := Tree.mem_storedEntries.mp hstored
    exact List.mem_cons_of_mem _ (List.mem_map_of_mem (f := fun row => row.1.1) (Table.mem_entries_iff.mpr hrow))

theorem rootsBind_of_check (moment : Instant) (mutation : Mutation) (h : rootsBind moment mutation = true) :
    RootsBind prims moment mutation := by
  cases mutation with
  | remove batch => exact fun update hupdate => listingsBind_of_check (List.all_eq_true.mp h update hupdate)
  | rename batch =>
      simp only [rootsBind, Bool.and_eq_true, List.all_eq_true, List.mem_dedup, List.mem_flatMap, List.mem_inits] at h
      refine ⟨fun update hupdate => listingsBind_of_check (h.1 update hupdate), ?_⟩
      intro past other hpast hother moved hmoved seen hseen id
      by_cases hlisted : id = batch.target.destinationDirectoryId ∨ past.state.tree.storedEntries id ≠ []
      · have hchecked := h.2 moved ⟨other.state, state_mem_states hother, hmoved⟩ seen hseen
          (id, past.state.tree.storedEntries id) ⟨past.state, state_mem_states hpast, mem_listings hlisted⟩
        rw [Tree.listing]
        exact listingsBind_of_check hchecked
      · -- a directory without entries that the rename does not move into stays without entries
        rw [not_or, not_not] at hlisted
        rw [Tree.listing, renameEntries, hlisted.2, if_neg hlisted.1]
        exact fun _ _ _ => .refl []
  | _ => trivial

/-- The batches that the results above are about. -/
def holds (moment : Instant) (mutation : Mutation) : Bool := findsEntry moment mutation && rootsBind moment mutation

theorem holds_iff (moment : Instant) (mutation : Mutation) (h : holds moment mutation = true) :
    EntryUnchanged moment mutation ∧ RootsBind prims moment mutation := by
  rw [holds, Bool.and_eq_true] at h
  exact ⟨entryUnchanged_of_findsEntry moment mutation h.1, rootsBind_of_check moment mutation h.2⟩

theorem reachable_interleaved : Reachable prims (fun moment mutation => holds moment mutation = true) database
    (run interleaved) := by
  apply reachable_run (fun _ _ h => h) interleaved
  · intro change hmem
    simp only [interleaved, complete, advances, List.mem_append, List.mem_cons, List.mem_replicate, reduceCtorEq,
      and_false, or_self] at hmem
  · decide +kernel

theorem plans_are_current_interleaved :
    (∀ mutation db, (some mutation, db) ∈ (run interleaved).trace → PlannedOn prims db mutation) ∧
      (run interleaved).trace.length = 5 :=
  ⟨fun _ _ hmem => plans_are_current holds_iff bootstrapped_database reachable_interleaved hmem, by decide +kernel⟩

theorem namespace_consistent_interleaved :
    (run interleaved).state.tree.Settled prims ∧ CatalogCurrent (run interleaved).state :=
  namespace_consistent holds_iff bootstrapped_database reachable_interleaved

theorem namespace_serializable_interleaved :
    (run interleaved).state.tree.SameRows (replayEdits prims database.tree (run interleaved).toMoment) ∧
      (run interleaved).state.journal.nextCatalogRevision =
        database.journal.nextCatalogRevision + (namespaceEdits (run interleaved).toMoment).length :=
  namespace_serializable holds_iff bootstrapped_database reachable_interleaved

end Sample

end Skydriver
