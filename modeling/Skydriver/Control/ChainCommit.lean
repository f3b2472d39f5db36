import Skydriver.Control.Edits
import Skydriver.Control.LiveFiles

/-!
# Chain plans that commit

Between a plan and its batch other batches run.  A put and mkdir check that each update of their plan is still current;
a removal only checks afterwards that each new root is in place.  That is enough: a directory that has the new root
already would have to list what the plan leaves there, and the entry still to be removed, or the link still to be
rewritten, is in the way.  So whatever chain plan commits is the plan of the very state it commits on.
-/

namespace Skydriver

namespace Tree

def Current (tree : Tree) (updates : List DirectoryUpdate) : Prop :=
  ∀ update ∈ updates, ∃ row, tree.directories.lookup update.directoryId = some row ∧
    row.revision = update.expectedRevision

theorem current_of_chainCurrent {tree : Tree} {filesystemId start : Identity} {updates : List DirectoryUpdate}
    (h : tree.chainCurrent filesystemId start updates = true) : tree.Current updates := by
  induction updates generalizing start with
  | nil => exact fun update hmem => absurd hmem List.not_mem_nil
  | cons first rest ih =>
      rw [chainCurrent, Bool.and_eq_true] at h
      cases hrow : tree.directories.lookup first.directoryId with
      | none =>
          rw [hrow] at h
          cases h.2
      | some row =>
          rw [hrow] at h
          simp only [Bool.and_eq_true, beq_iff_eq] at h
          have hrest : tree.Current rest := by
            cases rest with
            | nil => exact fun update hmem => absurd hmem List.not_mem_nil
            | cons second more =>
                cases hparent : row.parentId with
                | none =>
                    rw [hparent] at h
                    cases h.2.2
                | some parentId =>
                    rw [hparent] at h
                    exact ih h.2.2
          intro update hmem
          rcases List.mem_cons.mp hmem with rfl | hmem
          · exact ⟨row, hrow, h.2.1.1.2⟩
          · exact hrest update hmem

theorem mem_ancestors {tree : Tree} {id above : Identity} :
    above ∈ tree.ancestors id ↔ ∃ steps, tree.directories.Reaches DirectoryRow.parentId steps id above := by
  rw [ancestors, List.mem_map]
  constructor
  · intro h
    obtain ⟨⟨found, row⟩, hmem, rfl⟩ := h
    exact (Table.mem_lineage_iff.mp hmem).2
  · intro h
    obtain ⟨steps, hreach⟩ := h
    obtain ⟨row, hrow⟩ := hreach.lookup_above
    exact ⟨(above, row), Table.mem_lineage_iff.mpr ⟨hrow, steps, hreach⟩, rfl⟩

theorem ancestors_parent {tree : Tree} (hrooted : tree.Rooted) {id above parentId : Identity} {row : DirectoryRow}
    (hmem : above ∈ tree.ancestors id) (hrow : tree.directories.lookup above = some row)
    (hparent : row.parentId = some parentId) : parentId ∈ tree.ancestors id := by
  obtain ⟨steps, hreach⟩ := mem_ancestors.mp hmem
  obtain ⟨shape, hshape, _⟩ := hrooted.parent (shapeAt_of_lookup hrow) hparent
  obtain ⟨parent, hfound, _⟩ := lookup_of_shapeAt hshape
  exact mem_ancestors.mpr ⟨_, hreach.trans (.step hrow hparent (.refl hfound))⟩

theorem not_mem_ancestors_parent {tree : Tree} (hrooted : tree.Rooted) {id parentId : Identity} {row : DirectoryRow}
    (hrow : tree.directories.lookup id = some row) (hparent : row.parentId = some parentId) :
    id ∉ tree.ancestors parentId := by
  intro hmem
  obtain ⟨steps, hreach⟩ := mem_ancestors.mp hmem
  obtain ⟨rows, hdepth⟩ := hrooted.grounded (shapeAt_of_lookup hrow)
  have hloop := (Table.Chain.of_reaches (.step hrow hparent hreach) hdepth).functional hdepth
  omega

end Tree

/-! ### Plans of the current state -/

section Current

variable {prims : Primitives} {filesystemId : Identity} {edit : DirectEdit} {now first last : Instant}
  {id : Identity} {replacement : Replacement} {updates : List DirectoryUpdate} {links : List LinkUpdate}
  {root : Digest}

/-- The levels of a plan that is still current are levels of the current state. -/
theorem Climb.held (h : Climb prims filesystemId edit (ReadBetween first last) id replacement updates links root)
    (hsteady : Steady prims now) (hlast : last.Before now) (hcurrent : now.state.tree.Current updates) :
    Climb prims filesystemId edit now.state.tree.Reads id replacement updates links root := by
  apply h.mono
  intro found row stored hupdate hread
  obtain ⟨update, hmem, rfl, hrevision⟩ := hupdate
  obtain ⟨early, late, _, hmiddle, hend, hrow, rfl⟩ := hread
  obtain ⟨current, hcurrent, hsame⟩ := hcurrent update hmem
  obtain ⟨rfl, _, _⟩ := hsteady.held (hmiddle.trans (hend.trans hlast)) (.refl now) hrow hcurrent
    (hsame.trans hrevision)
  obtain ⟨_, _, hstored⟩ := hsteady.held hmiddle (hend.trans hlast) hrow hcurrent rfl
  exact ⟨hcurrent, hstored⟩

theorem climb_of_planChain {μ ρ ε ι : Type} {start : Identity} {plan : RootPlan} {first last : Moment Database μ}
    (h : (planChain prims filesystemId start edit : Program Database μ ρ ε ι _).Yields first (.planned plan) last) :
    Climb prims filesystemId edit (ReadBetween first last) start .direct plan.directories plan.links plan.root ∧
      plan.directories.length ≤ maximumDirectoryDepth := by
  obtain ⟨updates, more, hdirectories, hlinks, hclimb, hlength, _⟩ := climb_of_yields h
  rw [List.nil_append] at hdirectories hlinks
  rw [hdirectories, hlinks]
  exact ⟨hclimb, hlength⟩

theorem Climb.readOn_planChain {μ ρ ε ι : Type} {db : Database} {start : Identity} {plan : RootPlan}
    (h : Climb prims filesystemId edit db.tree.Reads start .direct plan.directories plan.links plan.root)
    (hlength : plan.directories.length ≤ maximumDirectoryDepth) :
    (planChain prims filesystemId start edit : Program Database μ ρ ε ι _).readOn db = some (.planned plan) := by
  rw [planChain, readOn_of_climb h hlength h.nodup fun _ _ => List.not_mem_nil]
  rfl

/-- What a directory would list if the level had been carried out already is not what it lists: the swap of its root is
still to come. -/
theorem Climb.stillCurrent (hsteady : Steady prims now) (hlast : last.Before now) {start : Identity}
    (hswap : ∀ update ∈ updates, update.directoryId ∈ now.state.tree.ancestors start → ∃ row,
      now.state.tree.directories.lookup update.directoryId = some row ∧
        (row.revision = update.expectedRevision ∨ row.dataRoot = update.newRoot))
    (hbind : ∀ update ∈ updates, ∀ root, directoryMerkleRoot prims update.newEntries = .ok root →
      directoryMerkleRoot prims (now.state.tree.listing update.directoryId) = .ok root →
        update.newEntries.Perm (now.state.tree.listing update.directoryId))
    (h : Climb prims filesystemId edit (ReadBetween first last) id replacement updates links root)
    (hreach : id ∈ now.state.tree.ancestors start)
    (hopen : ∀ row stored update link, ReadBetween first last id row stored →
      planLevel prims edit replacement id row stored = .ok (update, link) →
        ¬update.newEntries.Perm (now.state.tree.listing id)) : now.state.tree.Current updates := by
  -- the row of a level whose root is still to be swapped
  have hhere : ∀ {id replacement row stored update link}, ReadBetween first last id row stored →
      planLevel prims edit replacement id row stored = .ok (update, link) → id ∈ now.state.tree.ancestors start →
        update ∈ updates → ¬update.newEntries.Perm (now.state.tree.listing id) →
          now.state.tree.directories.lookup id = some row := by
    intro id replacement row stored update link hread hlevel hreach hmem hopen
    obtain ⟨early, late, _, hmiddle, hend, hrow, _⟩ := hread
    obtain ⟨entries, newRoot, _, hroot, _, hupdate⟩ := planLevel_eq_ok.mp hlevel
    have hid := planLevel_directoryId hlevel
    obtain ⟨current, hcurrent, hstate⟩ := hswap update hmem (hid.symm ▸ hreach)
    rw [hid] at hcurrent
    rcases hstate with hrevision | hnew
    · rw [hupdate] at hrevision
      obtain ⟨rfl, _⟩ := hsteady.held (hmiddle.trans (hend.trans hlast)) (.refl now) hrow hcurrent hrevision
      exact hcurrent
    · have hlisted := (hsteady.settled (.refl now)).root hcurrent
      rw [hnew, ← hid] at hlisted
      refine absurd (hbind update hmem _ ?_ hlisted) (hid ▸ hopen)
      rw [hupdate]
      exact hroot
  induction h with
  | @top id replacement row stored update link hread _ _ _ hlevel _ =>
      intro found hfound
      rw [List.mem_singleton] at hfound
      subst hfound
      have hcurrent := hhere hread hlevel hreach (List.mem_singleton_self _) (hopen _ _ _ _ hread hlevel)
      obtain ⟨_, _, _, _, _, rfl⟩ := planLevel_eq_ok.mp hlevel
      exact ⟨row, hcurrent, rfl⟩
  | @up id parentId replacement row stored update link rest more root hread hfilesystem hactive _ hlevel hparent habove
      ih =>
      have hcurrent := hhere hread hlevel hreach List.mem_cons_self (hopen _ _ _ _ hread hlevel)
      have hsettled := hsteady.settled (.refl now)
      have hrest : now.state.tree.Current rest := by
        apply ih
        · exact fun found hfound => hswap found (List.mem_cons_of_mem _ hfound)
        · exact fun found hfound => hbind found (List.mem_cons_of_mem _ hfound)
        · exact Tree.ancestors_parent hsettled.rooted hreach hcurrent hparent
        · -- the parent still lists the old root of this directory
          intro row' stored' update' link' hread' hlevel' hperm
          obtain ⟨_, late, _, _, _, _, rfl⟩ := hread'
          obtain ⟨entries, _, hedit, _, _, hupdate'⟩ := planLevel_eq_ok.mp hlevel'
          obtain ⟨_, _, _, rfl, _⟩ := editEntries_child.mp hedit
          obtain ⟨_, _, _, _, hne, rfl⟩ := planLevel_eq_ok.mp hlevel
          rw [hupdate'] at hperm
          have hlisted := hperm.mem_iff.mp (List.mem_append_right _ (List.mem_singleton_self _))
          obtain ⟨name, ⟨content, revision⟩, hentry, hsame⟩ := Tree.mem_listing.mp hlisted
          cases content with
          | file _ _ _ _ _ => cases hsame
          | directory child dataRoot =>
              cases hsame
              exact hne (hsettled.childRoot hentry hcurrent).symm
        · exact fun hread hlevel hreach hmem => hhere hread hlevel hreach (List.mem_cons_of_mem _ hmem)
      intro found hfound
      rcases List.mem_cons.mp hfound with rfl | hfound
      · obtain ⟨_, _, _, _, _, rfl⟩ := planLevel_eq_ok.mp hlevel
        exact ⟨row, hcurrent, rfl⟩
      · exact hrest found hfound

end Current

/-! ### Removals -/

theorem updateRoots_lookup_of_mismatch {updates : List DirectoryUpdate}
    (hnodup : (updates.map DirectoryUpdate.directoryId).Nodup) {update : DirectoryUpdate} (hmem : update ∈ updates)
    {directories : Table Identity DirectoryRow} {row : DirectoryRow}
    (hrow : directories.lookup update.directoryId = some row)
    (hmismatch : ¬(row.revision = update.expectedRevision ∧ row.dataRoot = update.expectedRoot)) :
    (updateRoots updates directories).lookup update.directoryId = some row := by
  induction updates generalizing directories with
  | nil => cases hmem
  | cons first updates ih =>
      rw [List.map_cons, List.nodup_cons] at hnodup
      rw [updateRoots_cons]
      rcases List.mem_cons.mp hmem with rfl | hmem
      · rw [updateRoots_lookup_of_not_mem hnodup.1, updateRoots, List.foldl_cons, List.foldl_nil,
          Table.lookup_modify_self, hrow, Option.map_some, if_neg hmismatch]
      · apply ih hnodup.2 hmem
        rw [updateRoots, List.foldl_cons, List.foldl_nil, Table.lookup_modify_ne, hrow]
        intro heq
        exact hnodup.1 (heq ▸ List.mem_map_of_mem hmem)

/-- A plan whose new roots are all in place afterwards met each directory as it expects it, or with the new root. -/
theorem swap_of_updatesApplied {directories : Table Identity DirectoryRow} {updates : List DirectoryUpdate}
    {entries : Table (Identity × Text) EntryRow} (hnodup : (updates.map DirectoryUpdate.directoryId).Nodup)
    (happlied : (Tree.mk (updateRoots updates directories) entries).updatesApplied updates = true)
    {update : DirectoryUpdate} (hmem : update ∈ updates) :
    ∃ row, directories.lookup update.directoryId = some row ∧
      (row.revision = update.expectedRevision ∨ row.dataRoot = update.newRoot) := by
  rw [Tree.updatesApplied, List.all_eq_true] at happlied
  have hafter := happlied update hmem
  rw [Option.any_eq_true] at hafter
  obtain ⟨after, hlookup, hstate⟩ := hafter
  rw [Bool.and_eq_true, beq_iff_eq, beq_iff_eq] at hstate
  cases hrow : directories.lookup update.directoryId with
  | none =>
      have hshape := updateRoots_shape updates directories update.directoryId
      rw [hlookup, hrow] at hshape
      cases hshape
  | some row =>
      refine ⟨row, rfl, ?_⟩
      by_cases hmatch : row.revision = update.expectedRevision ∧ row.dataRoot = update.expectedRoot
      · exact .inl hmatch.1
      · rw [updateRoots_lookup_of_mismatch hnodup hmem hrow hmatch, Option.some.injEq] at hlookup
        exact .inr (hlookup ▸ hstate.2)

/-! ### Put, mkdir and removal -/

section Batches

variable {prims : Primitives} {now : Instant} {after : Database}

/-- The chain plan of a batch is the plan of the state it commits on. -/
structure ChainNow (prims : Primitives) (now : Instant) (filesystemId start : Identity) (edit : DirectEdit)
    (plan : RootPlan) : Prop where
  climb : Climb prims filesystemId edit now.state.tree.Reads start .direct plan.directories plan.links plan.root
  short : plan.directories.length ≤ maximumDirectoryDepth

theorem planDirectoryRoots_yields {μ ρ ε ι : Type} {intent : PutIntentRow} {plan : RootPlan} {first last : Moment Database μ}
    (h : (planDirectoryRoots prims intent : Program Database μ ρ ε ι _).Yields first (.planned plan) last) :
    ∃ middle, first.Before middle ∧ (planChain prims intent.filesystemId intent.directoryId (putEdit intent) :
      Program Database μ ρ ε ι _).Yields middle (.planned plan) last := by
  rw [planDirectoryRoots, Program.yields_bind_iff] at h
  obtain ⟨middle, file, hfile, h⟩ := h
  split_ifs at h
  · exact ⟨middle, hfile.before, h⟩
  · cases (Program.yields_done_iff.mp h).1

theorem PutCommitted.chainNow {batch : PutCommitBatch} {intent read : PutIntentRow}
    (h : PutCommitted batch intent now.state after) (hsteady : Steady prims now)
    (hintents : ∀ past : Instant, past.Before now → IntentsEvolve past.state now.state)
    (horigin : CommitOrigin prims batch read now) :
    ChainNow prims now intent.filesystemId intent.directoryId (putEdit intent) batch.plan := by
  -- the columns the planner used are those of the intent to this day
  obtain ⟨past, hpast, hread⟩ := horigin.read
  obtain ⟨found, hfound, hevolves⟩ := hintents past hpast _ _ hread
  rw [h.found] at hfound
  cases hfound
  obtain ⟨state, revision, rfl⟩ := hevolves.same
  obtain ⟨first, last, hlast, hplan⟩ := horigin.planned
  obtain ⟨middle, _, hchain⟩ := planDirectoryRoots_yields hplan
  obtain ⟨hclimb, hlength⟩ := climb_of_planChain hchain
  obtain ⟨_, hcurrent, _⟩ := putTree_eq_some h.tree
  exact ⟨hclimb.held hsteady hlast (Tree.current_of_chainCurrent hcurrent), hlength⟩

theorem MkdirCommitted.chainNow {batch : MkdirBatch} (h : MkdirCommitted batch now.state after)
    (hsteady : Steady prims now) (horigin : PlannedBefore (planNewChildDirectoryRoots prims batch.filesystemId
      batch.parentDirectoryId batch.childDirectoryId batch.name batch.emptyRoot) batch.plan now) :
    ChainNow prims now batch.filesystemId batch.parentDirectoryId
      (newChildEdit batch.childDirectoryId batch.name batch.emptyRoot) batch.plan := by
  obtain ⟨first, last, hlast, hplan⟩ := horigin
  obtain ⟨hclimb, hlength⟩ := climb_of_planChain hplan
  obtain ⟨_, hcurrent, _⟩ := mkdirTree_eq_some h.tree
  exact ⟨hclimb.held hsteady hlast (Tree.current_of_chainCurrent hcurrent), hlength⟩

/-- Two listings that have one root list the same: a failure is a collision of SHA-256. -/
def ListingsBind (prims : Primitives) (left right : List DirectoryMerkleEntry) : Prop :=
  ∀ root, directoryMerkleRoot prims left = .ok root → directoryMerkleRoot prims right = .ok root → left.Perm right

theorem RemoveCommitted.chainNow {batch : RemoveBatch} (h : RemoveCommitted batch now.state after)
    (hsteady : Steady prims now) (horigin : RemoveOrigin prims batch now)
    (hfound : now.state.tree.entries.lookup (batch.directoryId, batch.name) = some batch.entry)
    (hbind : ∀ update ∈ batch.plan.directories,
      ListingsBind prims update.newEntries (now.state.tree.listing update.directoryId)) :
    ChainNow prims now batch.filesystemId batch.directoryId (removalEdit batch.name batch.expectedEntryRevision)
      batch.plan := by
  obtain ⟨first, last, hlast, hplan⟩ := horigin.planned
  obtain ⟨hclimb, hlength⟩ := climb_of_planChain hplan
  obtain ⟨hwell, hproof, htree⟩ := removeTree_eq_some h.tree
  simp only [removeProofApplied, Bool.and_eq_true] at hproof
  simp only [Tree.updatesWellFormed, Bool.and_eq_true, decide_eq_true_eq] at hwell
  rw [htree] at hproof
  have hsettled := hsteady.settled (.refl now)
  obtain ⟨directory, hdirectory, _⟩ := hsettled.housed hfound
  have hswap : ∀ update ∈ batch.plan.directories, update.directoryId ∈ now.state.tree.ancestors batch.directoryId →
      ∃ row, now.state.tree.directories.lookup update.directoryId = some row ∧
        (row.revision = update.expectedRevision ∨ row.dataRoot = update.newRoot) := by
    intro update hmem hreach
    have hkept : (removedDirectories batch.entry.content now.state.tree.directories).lookup update.directoryId =
        now.state.tree.directories.lookup update.directoryId := by
      apply removedDirectories_lookup_ne
      -- the removed directory is below its parent, not above it
      intro child dataRoot hcontent heq
      have hentry : now.state.tree.entries.lookup (batch.directoryId, batch.name) =
          some ⟨.directory child dataRoot, batch.entry.revision⟩ := by rw [hfound, ← hcontent]
      obtain ⟨shape, hshape, hparent, _⟩ := hsettled.linked.child hentry
      obtain ⟨row, hrow, rfl⟩ := lookup_of_shapeAt hshape
      exact Tree.not_mem_ancestors_parent hsettled.rooted hrow hparent (heq ▸ hreach)
    rw [← hkept]
    exact swap_of_updatesApplied hwell.1 hproof.1.1.2 hmem
  refine ⟨hclimb.held hsteady hlast ?_, hlength⟩
  apply Climb.stillCurrent hsteady hlast hswap hbind hclimb
  · exact Tree.mem_ancestors.mpr ⟨0, .refl hdirectory⟩
  · -- the entry to be removed is still listed
    intro row stored update link hread hlevel hperm
    obtain ⟨_, late, _, _, _, _, rfl⟩ := hread
    obtain ⟨_, _, hedit, _, _, rfl⟩ := planLevel_eq_ok.mp hlevel
    obtain ⟨_, rfl, _⟩ := editEntries_direct.mp hedit
    have hlisted := hperm.mem_iff.mpr (Tree.mem_listing.mpr ⟨_, _, hfound, rfl⟩)
    rcases List.mem_append.mp hlisted with hkept | hnew
    · obtain ⟨name, kept, _, hname, hsame⟩ := Tree.mem_listedBut.mp hkept
      have heq := congrArg entryName hsame
      rw [entryName_merkle, entryName_merkle] at heq
      exact hname heq.symm
    · cases hnew

end Batches

end Skydriver
