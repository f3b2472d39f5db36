import Skydriver.Control.Provenance

/-!
# The catalog revisions of a filesystem

Each batch of the namespace publishes one catalog revision over the current head of its filesystem, and moves the head
to it.  So the revisions of a filesystem form one line: the parents lead from the head through every revision of the
filesystem to its first one, and the head counts them.
-/

namespace Skydriver

/-! ### Publication -/

/-- One new revision in the catalog of a filesystem. -/
structure Publication where
  filesystemId : Identity
  mutationKind : MutationKind
  mutationId : Identity
  rootDataRoot : Digest
  updatedAt : Nat

/-- What a batch publishes; exactly the batches of the namespace publish. -/
def publication (db : Database) : Mutation → Option Publication
  | .putCommit batch => (db.journal.putIntents.lookup batch.intentId).map fun intent =>
      ⟨intent.filesystemId, .put, batch.intentId, batch.plan.root, batch.now⟩
  | .mkdir batch => some ⟨batch.filesystemId, .mkdir, batch.operationId, batch.plan.root, batch.now⟩
  | .remove batch => some ⟨batch.filesystemId, .remove, batch.operationId, batch.plan.root, batch.now⟩
  | .rename batch => some ⟨batch.filesystemId, .rename, batch.operationId, batch.plan.root, batch.now⟩
  | _ => none

/-- The catalog after a publication: a revision over the head of its filesystem, which moves to it. -/
structure Publishes (publication : Publication) (journal after : Journal) : Prop where
  revisions : after.catalogRevisions = journal.catalogRevisions.insert journal.nextCatalogRevision
    ⟨publication.filesystemId, (journal.mutationHeads.lookup publication.filesystemId).map MutationHeadRow.revisionId,
      publication.rootDataRoot, publication.mutationKind, publication.mutationId⟩
  next : after.nextCatalogRevision = journal.nextCatalogRevision + 1
  heads : after.mutationHeads = journal.mutationHeads.insert publication.filesystemId ⟨journal.nextCatalogRevision,
    ((journal.mutationHeads.lookup publication.filesystemId).map MutationHeadRow.revision).getD 0 + 1,
    publication.updatedAt⟩

/-- The catalog does not change. -/
structure KeepsCatalog (journal after : Journal) : Prop where
  revisions : after.catalogRevisions = journal.catalogRevisions
  next : after.nextCatalogRevision = journal.nextCatalogRevision
  heads : after.mutationHeads = journal.mutationHeads

theorem Publishes.of_publish {publication : Publication} {journal published after : Journal}
    (h : journal.publish publication.filesystemId publication.mutationKind publication.mutationId
      publication.rootDataRoot publication.updatedAt = some published) (hkeeps : KeepsCatalog published after) :
    Publishes publication journal after := by
  simp only [Journal.publish, require_bind_eq_some, Option.some.injEq] at h
  obtain ⟨_, _, rfl⟩ := h
  exact ⟨hkeeps.revisions, hkeeps.next, hkeeps.heads⟩

theorem Committed.publishes {db after : Database} {mutation : Mutation} (h : Committed db after mutation) :
    (∃ published, publication db mutation = some published ∧ Publishes published db.journal after.journal) ∨
      (publication db mutation = none ∧ KeepsCatalog db.journal after.journal) := by
  cases h with
  | putCommit h =>
      obtain ⟨_, _, hpublish, hjournal⟩ := h.journal
      refine .inl ⟨_, by rw [publication, h.found]; rfl, .of_publish hpublish ?_⟩
      rw [hjournal]
      exact ⟨rfl, rfl, rfl⟩
  | mkdir h =>
      obtain ⟨_, _, hpublish, hjournal⟩ := h.journal
      refine .inl ⟨_, rfl, .of_publish hpublish ?_⟩
      rw [hjournal]
      exact ⟨rfl, rfl, rfl⟩
  | remove h =>
      obtain ⟨_, _, hpublish, hjournal⟩ := h.journal
      refine .inl ⟨_, rfl, .of_publish hpublish ?_⟩
      rw [hjournal]
      exact ⟨rfl, rfl, rfl⟩
  | rename h =>
      obtain ⟨_, _, hpublish, hjournal⟩ := h.journal
      refine .inl ⟨_, rfl, .of_publish hpublish ?_⟩
      rw [hjournal]
      exact ⟨rfl, rfl, rfl⟩
  | putPrepare h =>
      rcases executePutPrepare_eq_some h with rfl | ⟨rfl, _⟩
      · exact .inr ⟨rfl, rfl, rfl, rfl⟩
      · exact .inr ⟨rfl, rfl, rfl, rfl⟩
  | evidence h =>
      obtain ⟨_, rfl⟩ := executeEvidence_eq_some h
      exact .inr ⟨rfl, rfl, rfl, rfl⟩
  | tokenIssue h =>
      obtain ⟨_, _, _, rfl⟩ := executeTokenIssue_eq_some h
      exact .inr ⟨rfl, rfl, rfl, rfl⟩
  | tokenRevoke h =>
      obtain ⟨_, _, _, _, rfl⟩ := executeTokenRevoke_eq_some h
      exact .inr ⟨rfl, rfl, rfl, rfl⟩
  | aclReplace h =>
      obtain ⟨_, _, _, _, rfl⟩ := executeAclReplace_eq_some h
      exact .inr ⟨rfl, rfl, rfl, rfl⟩
  | placementReplace h =>
      obtain ⟨_, _, _, _, _, rfl⟩ := executePlacementReplace_eq_some h
      exact .inr ⟨rfl, rfl, rfl, rfl⟩
  | maintenance h =>
      obtain ⟨_, _, rfl, _⟩ := executeMaintenance_eq_some h
      exact .inr ⟨rfl, rfl, rfl, rfl⟩
  | markUnreachable h =>
      obtain ⟨_, _, rfl, _⟩ := executeMarkUnreachable_eq_some h
      exact .inr ⟨rfl, rfl, rfl, rfl⟩
  | locationComplete h =>
      obtain ⟨_, _, rfl, _⟩ := executeLocationComplete_eq_some h
      exact .inr ⟨rfl, rfl, rfl, rfl⟩
  | task lifecycle htask _ h =>
      subst h
      refine .inr ⟨?_, rfl, rfl, rfl⟩
      cases mutation with
      | putCommit _ => cases htask
      | mkdir _ => cases htask
      | remove _ => cases htask
      | rename _ => cases htask
      | _ => rfl

/-! ### One line of revisions -/

/-- The revisions of every filesystem form one line, which its head leads and counts. -/
structure CatalogLinear (journal : Journal) : Prop where
  below : ∀ {id row}, journal.catalogRevisions.lookup id = some row → id < journal.nextCatalogRevision
  parents : ∀ {id row parentId}, journal.catalogRevisions.lookup id = some row →
    row.parentRevisionId = some parentId → parentId < id ∧ ∃ parent,
      journal.catalogRevisions.lookup parentId = some parent ∧ parent.filesystemId = row.filesystemId
  heads : ∀ {filesystemId head}, journal.mutationHeads.lookup filesystemId = some head →
    (∃ row, journal.catalogRevisions.lookup head.revisionId = some row ∧ row.filesystemId = filesystemId) ∧
      journal.catalogRevisions.Chain CatalogRevisionRow.parentRevisionId head.revisionId head.revision
  complete : ∀ {id row}, journal.catalogRevisions.lookup id = some row → ∃ head,
    journal.mutationHeads.lookup row.filesystemId = some head ∧ ∃ steps,
      journal.catalogRevisions.Reaches CatalogRevisionRow.parentRevisionId steps head.revisionId id

namespace CatalogLinear

variable {journal after : Journal} (h : CatalogLinear journal)
include h

theorem publish {publication : Publication} (hpublish : Publishes publication journal after) : CatalogLinear after := by
  have hfresh : ∀ {id row}, journal.catalogRevisions.lookup id = some row → id ≠ journal.nextCatalogRevision := by
    intro id row hrow heq
    exact absurd (h.below hrow) (by omega)
  have hlookup : ∀ id, after.catalogRevisions.lookup id = if id = journal.nextCatalogRevision then
      some ⟨publication.filesystemId,
        (journal.mutationHeads.lookup publication.filesystemId).map MutationHeadRow.revisionId, publication.rootDataRoot,
        publication.mutationKind, publication.mutationId⟩
      else journal.catalogRevisions.lookup id := by
    intro id
    rw [hpublish.revisions, Table.lookup_insert_eq]
  have hold : ∀ {id row}, journal.catalogRevisions.lookup id = some row → after.catalogRevisions.lookup id = some row := by
    intro id row hrow
    rw [hlookup, if_neg (hfresh hrow), hrow]
  have hkept : ∀ (met : Nat) (row : CatalogRevisionRow), journal.catalogRevisions.lookup met = some row →
      ∃ row', after.catalogRevisions.lookup met = some row' ∧ row'.parentRevisionId = row.parentRevisionId :=
    fun met row hrow => ⟨row, hold hrow, rfl⟩
  have hhead : ∀ filesystemId, after.mutationHeads.lookup filesystemId = if filesystemId = publication.filesystemId then
      some ⟨journal.nextCatalogRevision,
        ((journal.mutationHeads.lookup publication.filesystemId).map MutationHeadRow.revision).getD 0 + 1,
        publication.updatedAt⟩ else journal.mutationHeads.lookup filesystemId := by
    intro filesystemId
    rw [hpublish.heads, Table.lookup_insert_eq]
  have hnew := (hlookup journal.nextCatalogRevision).trans (if_pos rfl)
  constructor
  · intro id row hrow
    rw [hlookup] at hrow
    rw [hpublish.next]
    split_ifs at hrow with hid
    · omega
    · exact Nat.lt_succ_of_lt (h.below hrow)
  · intro id row parentId hrow hparent
    rw [hlookup] at hrow
    split_ifs at hrow with hid
    · cases hrow
      obtain ⟨head, hfound, rfl⟩ := Option.map_eq_some_iff.mp hparent
      obtain ⟨⟨parent, hlast, hfilesystem⟩, _⟩ := h.heads hfound
      exact ⟨hid ▸ h.below hlast, parent, hold hlast, hfilesystem⟩
    · obtain ⟨hless, parent, hfound, hfilesystem⟩ := h.parents hrow hparent
      exact ⟨hless, parent, hold hfound, hfilesystem⟩
  · intro filesystemId head hfound
    rw [hhead] at hfound
    split_ifs at hfound with hid
    · cases hfound
      refine ⟨⟨_, hnew, hid.symm⟩, ?_⟩
      cases hbefore : journal.mutationHeads.lookup publication.filesystemId with
      | none => exact .top hnew (by rw [hbefore]; rfl)
      | some head =>
          obtain ⟨_, hchain⟩ := h.heads hbefore
          exact .up hnew (by rw [hbefore]; rfl) (hchain.transfer fun met row _ hrow => hkept met row hrow)
    · obtain ⟨⟨row, hrow, hfilesystem⟩, hchain⟩ := h.heads hfound
      exact ⟨⟨row, hold hrow, hfilesystem⟩, hchain.transfer fun met row _ hrow => hkept met row hrow⟩
  · intro id row hrow
    rw [hlookup] at hrow
    split_ifs at hrow with hid
    · cases hrow
      rw [hhead, if_pos rfl, hid]
      exact ⟨_, rfl, 0, .refl hnew⟩
    · obtain ⟨head, hfound, steps, hreach⟩ := h.complete hrow
      have hafter := hreach.transfer fun met row _ hrow => hkept met row hrow
      rw [hhead]
      split_ifs with hfilesystem
      · -- the new head is one step below the old one
        rw [hfilesystem] at hfound
        refine ⟨_, rfl, steps + 1, .step hnew ?_ hafter⟩
        rw [hfound]
        rfl
      · exact ⟨head, hfound, steps, hafter⟩

theorem keep (hkeeps : KeepsCatalog journal after) : CatalogLinear after := by
  constructor
  · rw [hkeeps.revisions, hkeeps.next]
    exact h.below
  · rw [hkeeps.revisions]
    exact h.parents
  · rw [hkeeps.revisions, hkeeps.heads]
    exact h.heads
  · rw [hkeeps.revisions, hkeeps.heads]
    exact h.complete

end CatalogLinear

/-! ### The catalog as the log of the namespace -/

/-- What was published on the way to a moment, in the order of the commits. -/
def publications (now : Moment Database Mutation) : List Publication :=
  now.trace.filterMap fun step => step.1.bind (publication step.2)

def CatalogRevisionRow.recorded (row : CatalogRevisionRow) : Identity × MutationKind × Identity × Digest :=
  (row.filesystemId, row.mutationKind, row.mutationId, row.rootDataRoot)

def Publication.recorded (publication : Publication) : Identity × MutationKind × Identity × Digest :=
  (publication.filesystemId, publication.mutationKind, publication.mutationId, publication.rootDataRoot)

/-- The revisions from `first` on are the publications, one for one. -/
structure CatalogLogs (first : Nat) (now : Moment Database Mutation) : Prop where
  next : now.state.journal.nextCatalogRevision = first + (publications now).length
  rows : ∀ index, (now.state.journal.catalogRevisions.lookup (first + index)).map CatalogRevisionRow.recorded =
    ((publications now)[index]?).map Publication.recorded
  lowest : ∀ {id row}, now.state.journal.catalogRevisions.lookup id = some row → first ≤ id

theorem publications_advance (now : Moment Database Mutation) (cause : Option Mutation) (after : Database) :
    publications (now.advance cause after) = publications now ++ (cause.bind (publication now.state)).toList := by
  rw [publications, publications, Moment.advance, List.filterMap_append]
  rfl

namespace CatalogLogs

variable {first : Nat} {now : Moment Database Mutation} {cause : Option Mutation} {after : Database}
  (h : CatalogLogs first now)
include h

theorem publish {published : Publication} (hcause : cause.bind (publication now.state) = some published)
    (hpublish : Publishes published now.state.journal after.journal) : CatalogLogs first (now.advance cause after) := by
  have hlist := publications_advance now cause after
  rw [hcause, Option.toList_some] at hlist
  constructor
  · rw [hlist, List.length_append, List.length_singleton]
    have hnext := hpublish.next
    rw [h.next] at hnext
    exact hnext
  · intro index
    rw [hlist]
    show (after.journal.catalogRevisions.lookup (first + index)).map _ = _
    rw [hpublish.revisions, Table.lookup_insert_eq, h.next]
    split_ifs with hindex
    · obtain rfl : index = (publications now).length := by omega
      rw [List.getElem?_concat_length]
      rfl
    · rw [h.rows]
      rcases Nat.lt_or_ge index (publications now).length with hlt | hge
      · rw [List.getElem?_append_left hlt]
      · have hlong : (publications now ++ [published]).length ≤ index := by
          rw [List.length_append, List.length_singleton]
          omega
        rw [List.getElem?_eq_none hge, List.getElem?_eq_none hlong]
  · intro id row hrow
    change after.journal.catalogRevisions.lookup id = some row at hrow
    rw [hpublish.revisions, Table.lookup_insert_eq] at hrow
    split_ifs at hrow with hid
    · rw [hid, h.next]
      exact Nat.le_add_right _ _
    · exact h.lowest hrow

theorem keep (hcause : cause.bind (publication now.state) = none)
    (hkeeps : KeepsCatalog now.state.journal after.journal) : CatalogLogs first (now.advance cause after) := by
  have hlist := publications_advance now cause after
  rw [hcause, Option.toList_none, List.append_nil] at hlist
  constructor
  · rw [hlist]
    exact hkeeps.next.trans h.next
  · intro index
    rw [hlist]
    show (after.journal.catalogRevisions.lookup (first + index)).map _ = _
    rw [hkeeps.revisions]
    exact h.rows index
  · intro id row hrow
    change after.journal.catalogRevisions.lookup id = some row at hrow
    rw [hkeeps.revisions] at hrow
    exact h.lowest hrow

end CatalogLogs

/-! ### Along a run -/

section Runs

variable {prims : Primitives} {start : Database} {system : ControlState} {permit : Instant → Mutation → Prop}

theorem catalogLinear_of_reachable (hstart : Bootstrapped prims start) (hrun : Reachable prims permit start system) :
    CatalogLinear system.state.journal := by
  apply Reachable.state_invariant (fun db => CatalogLinear db.journal) _ _ _ hrun
  · intro before after hlinear hdrift
    obtain ⟨_, _, _, rfl⟩ := hdrift
    exact hlinear
  · intro moment mutation after hlinear _ hcommitted
    rcases hcommitted.publishes with ⟨published, _, hpublish⟩ | ⟨_, hkeeps⟩
    · exact hlinear.publish hpublish
    · exact hlinear.keep hkeeps
  · obtain ⟨next, hjournal⟩ := hstart.journal
    rw [hjournal]
    constructor
    · intro id row hrow
      cases hrow
    · intro id row parentId hrow
      cases hrow
    · intro filesystemId head hhead
      cases hhead
    · intro id row hrow
      cases hrow

theorem catalogLogs_of_reachable (hstart : Bootstrapped prims start) (hrun : Reachable prims permit start system) :
    CatalogLogs start.journal.nextCatalogRevision system.toMoment := by
  apply Reachable.guarded_invariant (CatalogLogs start.journal.nextCatalogRevision) _ _ _ hrun
  · intro moment after hlogs hdrift
    obtain ⟨_, _, _, rfl⟩ := hdrift
    exact hlogs.keep rfl ⟨rfl, rfl, rfl⟩
  · intro moment mutation after hlogs _ _ hcommitted
    rcases hcommitted.publishes with ⟨published, hpublished, hpublish⟩ | ⟨hnone, hkeeps⟩
    · exact hlogs.publish hpublished hpublish
    · exact hlogs.keep hnone hkeeps
  · obtain ⟨next, hjournal⟩ := hstart.journal
    constructor
    · rfl
    · intro index
      dsimp only
      rw [hjournal]
      rfl
    · intro id row hrow
      dsimp only at hrow
      rw [hjournal] at hrow
      cases hrow

/-- In every run the catalog is the log of the namespace: its revisions are the committed puts, creations, removals and
renames in the order in which they committed, and those of each filesystem form one line without forks from its head to
its first revision. -/
theorem catalog_is_log (hstart : Bootstrapped prims start) (hrun : Reachable prims permit start system) :
    CatalogLinear system.state.journal ∧ CatalogLogs start.journal.nextCatalogRevision system.toMoment :=
  ⟨catalogLinear_of_reachable hstart hrun, catalogLogs_of_reachable hstart hrun⟩

end Runs

namespace Sample

def renamedDirectory : List (Machine.Event Request Database Answer) :=
  complete 0 (createRequest 0 root [97]) ++ complete 1 (renameRequest 1 root [97] 1 root [98]) ++
    complete 2 (removeRequest 2 root [98] 2)

theorem catalog_is_log_renamedDirectory :
    CatalogLinear (run renamedDirectory).state.journal ∧ CatalogLogs 1 (run renamedDirectory).toMoment ∧
      (run renamedDirectory).state.journal.nextCatalogRevision = 4 := by
  have hreach : Reachable prims anyBatch database (run renamedDirectory) := by
    apply reachable_any_run
    intro change hmem
    simp only [renamedDirectory, complete, advances, List.mem_append, List.mem_cons, List.mem_replicate, reduceCtorEq,
      and_false, or_self] at hmem
  obtain ⟨hlinear, hlogs⟩ := catalog_is_log bootstrapped_database hreach
  exact ⟨hlinear, hlogs, by decide +kernel⟩

end Sample

end Skydriver
