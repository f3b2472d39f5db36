import Skydriver.Control.RenameCommit

/-!
# What a committed rename carries out

A rename that commits was planned, to the letter, as its planner would plan on the state it commits on.  So it moves
the entry of that state and recomputes every root, and rows, entries and roots agree afterwards.
-/

namespace Skydriver

/-- No two listings that a removal or a rename has to tell apart have one root: the new listings of its plan against
what the directories list when it commits, and the levels of a rename against the listings they were planned from.  A
failure is a collision of SHA-256. -/
def RootsBind (prims : Primitives) (moment : Instant) : Mutation → Prop
  | .remove batch => ∀ update ∈ batch.plan.directories,
      ListingsBind prims update.newEntries (moment.state.tree.listing update.directoryId)
  | .rename batch =>
      (∀ update ∈ batch.plan.directories,
        ListingsBind prims update.newEntries (moment.state.tree.listing update.directoryId)) ∧
      ∀ past other : Instant, past.Before moment → other.Before moment →
        ∀ moved ∈ other.state.tree.storedEntries batch.target.sourceDirectoryId,
          ∀ seen, seen <+: batch.plan.directories → ∀ id, ListingsBind prims
            (renameEntries batch.target (renamedEntry batch.target.destinationName moved.entry) seen id
              (past.state.tree.storedEntries id)).1 (past.state.tree.listing id)
  | _ => True

section Now

variable {prims : Primitives} {filesystemId : Identity} {target : RenameTarget} {expectedSourceRevision : Nat}
  {source destination : List LoadedDirectory} {listings : List (LoadedDirectory × List StoredEntry)} {plan : RootPlan}
  {moved : StoredEntry} {now first middle between last : Instant}

/-- What the planner read is what the state it commits on says. -/
structure RenameRead.Held (tree : Tree) (filesystemId : Identity) (target : RenameTarget)
    (source destination : List LoadedDirectory) (listings : List (LoadedDirectory × List StoredEntry)) : Prop where
  sourceChain : AncestorChain tree filesystemId target.sourceDirectoryId source
  destinationChain : AncestorChain tree filesystemId target.destinationDirectoryId destination
  listings : listings = (mergeChains source destination).map fun row => (row, tree.storedEntries row.1)

theorem RenameRead.held (hread : RenameRead prims filesystemId target expectedSourceRevision source destination listings
    plan first middle between last)
    (hcurrent : ∀ loaded ∈ mergeChains source destination, RenameCurrent now.state.tree target plan loaded)
    (hsteady : Steady prims now) (hlast : last.Before now) :
    RenameRead.Held now.state.tree filesystemId target source destination listings where
  sourceChain := hread.sourceChain.ancestorChain fun loaded hmem =>
    (hcurrent loaded (mem_mergeChains_iff.mpr (.inl hmem))).row
  destinationChain := by
    apply hread.destinationChain.ancestorChain
    intro loaded hmem
    have hplaced : loaded ∈ source ∨ loaded ∈ destination := .inr hmem
    obtain ⟨other, hother, hid, hwhere⟩ := exists_merged hplaced
    have hrow := (hcurrent other hother).row
    have hsame : other = loaded := by
      rcases hwhere with hsource | heq
      · exact hread.destination_row hsteady hlast hmem hsource hid hrow
      · exact heq
    exact hsame ▸ hrow
  listings := by
    rw [← hread.rows, List.map_map]
    have hsame : listings.map id = listings.map ((fun row => (row, now.state.tree.storedEntries row.1)) ∘ Prod.fst) := by
      apply List.map_congr_left
      intro listing hmem
      obtain ⟨late, hlate, hend, hstored, _⟩ := hread.listed listing hmem
      have hloaded : listing.1 ∈ mergeChains source destination := hread.rows ▸ List.mem_map_of_mem hmem
      obtain ⟨moment, hmoment, hrow⟩ := hread.row hloaded
      obtain ⟨_, _, hkept⟩ := hsteady.held (hmoment.trans hlate) (hend.trans hlast) hrow (hcurrent _ hloaded).row rfl
      exact Prod.ext rfl (hstored.trans hkept)
    rwa [List.map_id] at hsame

theorem RenameRead.readOn {μ ρ ε ι : Type} (hread : RenameRead prims filesystemId target expectedSourceRevision source
    destination listings plan first middle between last)
    (hheld : RenameRead.Held now.state.tree filesystemId target source destination listings)
    (hsettled : now.state.tree.Settled prims) :
    (planEntryRenameRoots prims filesystemId target expectedSourceRevision : Program Database μ ρ ε ι _).readOn now.state =
      some (.planned plan) := by
  have hfilled : ∀ {id chain}, AncestorChain now.state.tree filesystemId id chain → chain.isEmpty = false := by
    intro id chain hchain
    obtain ⟨row, hrow⟩ := hchain.head
    rw [List.isEmpty_eq_false_iff]
    exact List.ne_nil_of_mem hrow
  have hroots : ∀ loaded ∈ mergeChains source destination,
      directoryMerkleRoot prims (now.state.tree.listing loaded.1) = .ok loaded.2.dataRoot := by
    intro loaded hmem
    obtain ⟨hrow, _, hactive⟩ := (merged_mergeChains hheld.sourceChain hheld.destinationChain).row hmem
    exact hsettled.roots hrow hactive
  rw [planEntryRenameRoots, Program.readOn_bind, hheld.sourceChain.readOn_loadAncestorChain hread.sourceShort,
    Option.bind_some]
  dsimp only
  rw [Program.readOn_bind, hheld.destinationChain.readOn_loadAncestorChain hread.destinationShort, Option.bind_some]
  dsimp only
  rw [hfilled hheld.sourceChain, hfilled hheld.destinationChain, Bool.or_self, if_neg Bool.false_ne_true,
    Program.readOn_bind, readOn_loadListings hroots, Option.bind_some]
  dsimp only
  rw [← hheld.listings, hread.planned]
  rfl

end Now

/-! ### What a committed rename found -/

section Committed

variable {prims : Primitives} {batch : RenameBatch} {now : Instant} {after : Database}

theorem RenamedDirectories.lookup_of_above {target : RenameTarget} {tree : Tree} {content : EntryContent}
    {directories : Table Identity DirectoryRow} (h : RenamedDirectories target tree content directories)
    (hrooted : tree.Rooted) {id : Identity}
    (habove : id ∈ tree.ancestors target.sourceDirectoryId ∨ id ∈ tree.ancestors target.destinationDirectoryId) :
    directories.lookup id = tree.directories.lookup id := by
  cases h with
  | file => rfl
  | unchanged => rfl
  | moved hrow hsource _ _ hacyclic _ _ =>
      rw [Table.lookup_insert_eq, if_neg]
      intro heq
      subst heq
      rcases habove with hleft | hright
      · exact Tree.not_mem_ancestors_parent hrooted hrow hsource hleft
      · exact hacyclic hright

theorem RenameCommitted.renameFound (h : RenameCommitted batch now.state after) (hsteady : Steady prims now)
    (hunchanged : EntryUnchanged now (.rename batch)) (hbind : RootsBind prims now (.rename batch))
    (hdistinct : ¬(batch.target.sourceDirectoryId = batch.target.destinationDirectoryId ∧
      batch.target.sourceName = batch.target.destinationName))
    {source destination : List LoadedDirectory} {listings : List (LoadedDirectory × List StoredEntry)}
    {moved : StoredEntry} {first middle between last : Instant}
    (hread : RenameRead prims batch.filesystemId batch.target batch.expectedSourceRevision source destination listings
      batch.plan first middle between last) (hlast : last.Before now)
    (hchecked : RenameChecked prims batch.target batch.expectedSourceRevision source destination listings batch.plan
      moved) :
    RenameFound prims now.state.tree batch.target moved listings batch.plan := by
  obtain ⟨hwell, hproof, directories, hmoved, hfree, _, _, htree⟩ := renameTree_eq_some h.tree
  simp only [Tree.updatesWellFormed, Bool.and_eq_true, decide_eq_true_eq] at hwell
  simp only [renameProofApplied, Bool.and_eq_true] at hproof
  rw [htree] at hproof
  refine ⟨hwell.1, hdistinct, ⟨_, hunchanged⟩, ?_, ?_, hbind.1, ?_⟩
  · rw [Tree.deleteEntry_lookup, if_neg] at hfree
    · exact hfree
    · intro heq
      exact hdistinct ⟨(Prod.mk.inj heq.1).1.symm, (Prod.mk.inj heq.1).2.symm⟩
  · intro update hmem habove
    rw [← hmoved.lookup_of_above (hsteady.settled (.refl now)).rooted habove]
    exact swap_of_updatesApplied hwell.1 hproof.1.1.2 hmem
  · intro listing hmem seen hseen
    obtain ⟨late, hlate, hend, hstored, _⟩ := hread.listed listing hmem
    -- the moved entry was read in the listing of the source
    obtain ⟨loaded, hloaded, hid⟩ := List.mem_map.mp hread.sourceChain.head
    have hmerged : loaded ∈ mergeChains source destination := mem_mergeChains_iff.mpr (.inl hloaded)
    rw [← hread.rows] at hmerged
    obtain ⟨origin, horigin, rfl⟩ := List.mem_map.mp hmerged
    obtain ⟨other, _, hother, hlisted, _⟩ := hread.listed origin horigin
    have hfind := List.mem_of_find?_eq_some (hchecked.found origin horigin hid)
    rw [hlisted, hid] at hfind
    have hlevel := hbind.2 late other (hend.trans hlast) (hother.trans hlast) moved hfind seen hseen listing.1.1
    rw [Tree.listing, ← hstored] at hlevel
    exact hlevel

theorem RenameCommitted.readOn {μ ρ ε ι : Type} (h : RenameCommitted batch now.state after) (hsteady : Steady prims now)
    (horigin : RenameOrigin prims batch now) (hunchanged : EntryUnchanged now (.rename batch))
    (hbind : RootsBind prims now (.rename batch)) :
    (planEntryRenameRoots prims batch.filesystemId batch.target batch.expectedSourceRevision :
      Program Database μ ρ ε ι _).readOn now.state = some (.planned batch.plan) ∧
      ∀ id, id ∈ now.state.tree.ancestors batch.target.sourceDirectoryId ∨
        id ∈ now.state.tree.ancestors batch.target.destinationDirectoryId →
          id ∈ batch.plan.directories.map DirectoryUpdate.directoryId := by
  obtain ⟨first, last, hlast, hplan⟩ := horigin.planned
  obtain ⟨source, destination, listings, middle, between, hread⟩ := renameRead_of_yields hplan
  have hnodup : (listings.map fun listing => listing.1.1).Nodup := by
    have honce := nodup_mergeChains hread.sourceOnce hread.destinationOnce
    rwa [← hread.rows, List.map_map] at honce
  obtain ⟨moved, hchecked⟩ := renameChecked_of_planRename hnodup hread.planned
  have hfound := h.renameFound hsteady hunchanged hbind horigin.distinct hread hlast hchecked
  have hcurrent : ∀ loaded ∈ mergeChains source destination,
      RenameCurrent now.state.tree batch.target batch.plan loaded := fun loaded hmem =>
    hread.current hchecked hfound hsteady hlast hmem
  have hheld := hread.held hcurrent hsteady hlast
  refine ⟨hread.readOn hheld (hsteady.settled (.refl now)), ?_⟩
  intro id habove
  rw [hheld.sourceChain.mem_ancestors, hheld.destinationChain.mem_ancestors] at habove
  have hloaded : ∃ loaded, (loaded ∈ source ∨ loaded ∈ destination) ∧ loaded.1 = id := by
    rcases habove with hleft | hright
    · obtain ⟨loaded, hloaded, hid⟩ := List.mem_map.mp hleft
      exact ⟨loaded, .inl hloaded, hid⟩
    · obtain ⟨loaded, hloaded, hid⟩ := List.mem_map.mp hright
      exact ⟨loaded, .inr hloaded, hid⟩
  obtain ⟨loaded, hloaded, rfl⟩ := hloaded
  obtain ⟨other, hother, hid, _⟩ := exists_merged hloaded
  obtain ⟨update, hupdate, hupdated, _⟩ := (hcurrent other hother).updated
  exact List.mem_map.mpr ⟨update, hupdate, hupdated.trans hid⟩

end Committed

/-! ### The moved tree -/

section Moved

variable {prims : Primitives} {tree : Tree} {filesystemId : Identity} {target : RenameTarget}
  {expectedSourceRevision : Nat} {source destination : List LoadedDirectory} {plan : RootPlan} {entry : EntryRow}
  {ordered : List (LoadedDirectory × List StoredEntry)}

theorem Tree.rootAfter_moveEntry (tree : Tree) (target : RenameTarget) (entry : EntryRow) (plan : RootPlan)
    (id : Identity) : (tree.moveEntry target entry).rootAfter plan.directories id = plan.rootAfter tree id := by
  rw [Tree.rootAfter, RootPlan.rootAfter]
  congr 1
  cases hrow : (tree.moveEntry target entry).directories.lookup id with
  | none =>
      cases hold : tree.directories.lookup id with
      | none => rfl
      | some old =>
          obtain ⟨moved, hmoved, _⟩ := Tree.moveEntry_row_of_row target entry hold
          rw [hrow] at hmoved
          cases hmoved
  | some row =>
      obtain ⟨old, hold, _, _, hroot⟩ := Tree.moveEntry_row hrow
      rw [hold, Option.elim_some, Option.elim_some, hroot]

namespace Renaming

variable (h : Renaming prims tree filesystemId target expectedSourceRevision source destination plan entry ordered)
include h

theorem moved_linked : (tree.moveEntry target entry).Linked where
  child := by
    intro directoryId name child dataRoot revision hentry
    obtain ⟨row, hrow, hparent, hname, hactive, _⟩ := h.moved_child hentry
    exact ⟨row.shape, shapeAt_of_lookup hrow, hparent, hname, hactive⟩
  entry := by
    intro id shape parentId hshape hactive hparent
    obtain ⟨row, hrow, rfl⟩ := lookup_of_shapeAt hshape
    by_cases hmoved : ∃ dataRoot, entry.content = .directory id dataRoot
    · obtain ⟨dataRoot, hcontent⟩ := hmoved
      rw [Tree.moveEntry_directories_self _ _ hcontent, Option.map_eq_some_iff] at hrow
      obtain ⟨old, _, rfl⟩ := hrow
      cases hparent
      refine ⟨dataRoot, entry.revision + 1, ?_⟩
      rw [Tree.moveEntry_entries, ← hcontent]
      exact if_pos rfl
    · have hother : ∀ child dataRoot, entry.content = .directory child dataRoot → id ≠ child := by
        intro child dataRoot hcontent heq
        exact hmoved ⟨dataRoot, heq ▸ hcontent⟩
      rw [Tree.moveEntry_directories_of_ne _ _ hother] at hrow
      obtain ⟨dataRoot, revision, hentry⟩ := h.consistent.linked.entry (shapeAt_of_lookup hrow) hactive hparent
      refine ⟨dataRoot, revision, ?_⟩
      rw [Tree.moveEntry_entries, if_neg, if_neg, hentry]
      · intro heq
        rw [heq, h.planned.found, Option.some.injEq] at hentry
        exact hmoved ⟨dataRoot, congrArg EntryRow.content hentry⟩
      · intro heq
        rw [heq, h.planned.free] at hentry
        cases hentry

theorem rewriting (hsettled : tree.Settled prims) :
    Rewriting prims (tree.moveEntry target entry) plan.directories plan.links where
  rooted := h.moved_rooted
  linked := h.moved_linked
  housed := by
    intro directoryId name row hrow
    rw [Tree.moveEntry_entries] at hrow
    split_ifs at hrow with hnew
    · cases hnew
      obtain ⟨directory, hdirectory⟩ := h.merged.destination
      obtain ⟨hfound, _, hactive⟩ := h.merged.row hdirectory
      exact ⟨directory, (h.lookup_moved_chain (List.mem_map_of_mem hdirectory)).trans hfound, hactive⟩
    · obtain ⟨directory, hdirectory, hactive⟩ := hsettled.housed hrow
      obtain ⟨moved, hmoved, hstate⟩ := Tree.moveEntry_row_of_row target entry hdirectory
      exact ⟨moved, hmoved, hstate.trans hactive⟩
  emptied := by
    intro id row hrow hgone
    obtain ⟨old, hold, hstate, _, hroot⟩ := Tree.moveEntry_row hrow
    rw [hroot]
    exact hsettled.emptied hold (hstate ▸ hgone)
  childRoot := by
    intro key child dataRoot revision row hentry hrow
    obtain ⟨found, hfound, _, _, _, hroot⟩ := h.moved_child hentry
    rw [hrow] at hfound
    cases hfound
    exact hroot
  once := h.planned.nodup_directories h.merged.nodup
  current := by
    intro update hmem
    obtain ⟨row, hloaded, hrevision, hroot, _, hne⟩ := h.mem_updates hmem
    obtain ⟨hrow, _, hactive⟩ := h.merged.row hloaded
    exact ⟨row, (h.lookup_moved_chain (List.mem_map_of_mem hloaded)).trans hrow, hactive, hrevision, hroot, hne⟩
  linkedOnce := h.nodup_links
  links := by
    intro link
    constructor
    · intro hlink
      obtain ⟨dataRoot, _, hmoved, hroot, _⟩ := h.moved_link hlink
      exact ⟨⟨dataRoot, hmoved⟩, hroot⟩
    · intro hlink
      obtain ⟨⟨dataRoot, hentry⟩, hroot⟩ := hlink
      rw [Tree.moveEntry_entries] at hentry
      split_ifs at hentry
      · -- the moved directory gets no new root
        rw [Option.some.injEq, EntryRow.mk.injEq] at hentry
        obtain ⟨_, _, _, _, _, _, hnot⟩ := h.child hentry.1
        rw [h.newRootOf_eq_none hnot] at hroot
        cases hroot
      · exact h.mem_links.mpr ⟨_, _, _, dataRoot, _, _, hentry, hroot, rfl⟩
  roots := by
    intro id row hrow hactive
    have hsame : (tree.moveEntry target entry).rootAfter plan.directories = plan.rootAfter tree :=
      funext fun id => tree.rootAfter_moveEntry target entry plan id
    rw [hsame]
    exact h.moved_roots hrow hactive

theorem rerooted {after : Tree} (hsettled : tree.Settled prims)
    (hsame : after.SameRows ((tree.moveEntry target entry).recomputed prims)) :
    tree.Rerooted filesystemId plan.root after := by
  apply (h.rewriting hsettled).rerooted hsame
  · intro id row hrow hparent
    by_cases hmoved : ∃ dataRoot, entry.content = .directory id dataRoot
    · obtain ⟨dataRoot, hcontent⟩ := hmoved
      rw [Tree.moveEntry_directories_self _ _ hcontent, Option.map_eq_some_iff] at hrow
      obtain ⟨old, _, rfl⟩ := hrow
      cases hparent
    · rw [Tree.moveEntry_directories_of_ne] at hrow
      · exact hrow
      · intro child dataRoot hcontent heq
        exact hmoved ⟨dataRoot, heq ▸ hcontent⟩
  · intro update row hmem hrow
    obtain ⟨found, hloaded, _⟩ := h.mem_updates hmem
    obtain ⟨hfound, hfilesystem, _⟩ := h.merged.row hloaded
    rw [h.lookup_moved_chain (List.mem_map_of_mem hloaded)] at hrow
    rw [hrow, Option.some.injEq] at hfound
    rw [hfound]
    exact hfilesystem
  · obtain ⟨top, last, hlast, hnone⟩ := h.sourceChain.last
    have hchain := (mem_mergeChains h.sourceChain h.destinationChain).mpr (.inl (List.mem_of_getLast? hlast))
    obtain ⟨htop, hfilesystem, _⟩ := h.merged.row hchain
    have hroot := h.planned.root
    rw [hlast, Option.bind_some] at hroot
    obtain ⟨update, hupdate, hid, hnew⟩ := (h.planned.newRootOf_eq_some h.merged.nodup).mp hroot
    refine ⟨update, hupdate, hnew, last, ?_, hnone, hfilesystem⟩
    dsimp only at hid
    rw [hid, h.lookup_moved_chain (List.mem_map_of_mem hchain), htop]

/-- A rename that updates both chains leaves every other directory as it was. -/
theorem carried {after : Tree} (hsettled : tree.Settled prims)
    (hsame : after.SameRows ((tree.moveEntry target entry).recomputed prims))
    (hadvance : RowsAdvance tree.directories after.directories)
    (hall : ∀ loaded ∈ mergeChains source destination,
      loaded.1 ∈ plan.directories.map DirectoryUpdate.directoryId) :
    tree.Carried prims filesystemId plan.root (tree.moveEntry target entry) after := by
  have hrewriting := h.rewriting hsettled
  refine ⟨hsame, hsame.settled hrewriting.settled, ⟨hadvance, ?_⟩, h.rerooted hsettled hsame⟩
  intro id row hrow hlast name
  have hnot : id ∉ (mergeChains source destination).map Prod.fst := by
    intro hmem
    have hkept := (h.lookup_moved_chain hmem).trans hrow
    obtain ⟨loaded, hloaded, hid⟩ := List.mem_map.mp hmem
    exact hrewriting.not_updated hkept ((hsame.directories id).symm.trans hlast) (hid ▸ hall loaded hloaded)
  obtain ⟨sourceRow, hsource⟩ := h.merged.source
  obtain ⟨destinationRow, hdestination⟩ := h.merged.destination
  have hmoved : ∀ name, (tree.moveEntry target entry).entries.lookup (id, name) = tree.entries.lookup (id, name) := by
    intro name
    rw [Tree.moveEntry_entries, if_neg, if_neg]
    · intro heq
      exact hnot ((Prod.mk.inj heq).1 ▸ List.mem_map_of_mem hsource)
    · intro heq
      exact hnot ((Prod.mk.inj heq).1 ▸ List.mem_map_of_mem hdestination)
  rw [hsame.entries, hrewriting.recomputed_entries, hmoved]
  intro found child dataRoot revision hentry hmem
  obtain ⟨update, hupdate, rfl⟩ := List.mem_map.mp hmem
  obtain ⟨below, hbelow, _⟩ := h.mem_updates hupdate
  rw [hmoved] at hentry
  obtain ⟨shape, hshape, hparent, _⟩ := h.consistent.linked.child hentry
  rw [shapeAt_of_lookup (h.merged.row hbelow).1] at hshape
  cases hshape
  obtain ⟨above, habove⟩ := h.merged.parent hbelow hparent
  exact hnot (List.mem_map_of_mem habove)

end Renaming

theorem RenameCommitted.carried {batch : RenameBatch} {now : Instant} {after : Database}
    (h : RenameCommitted batch now.state after) (hsteady : Steady prims now) (horigin : RenameOrigin prims batch now)
    (hunchanged : EntryUnchanged now (.rename batch)) (hbind : RootsBind prims now (.rename batch))
    (hadvance : RowsAdvance now.state.tree.directories after.tree.directories) :
    now.state.tree.Carried prims batch.filesystemId batch.plan.root
      (now.state.tree.moveEntry batch.target batch.entry) after.tree := by
  obtain ⟨hplan, hall⟩ := h.readOn (μ := Mutation) (ρ := Bool) (ε := Effect) (ι := Answer) hsteady horigin hunchanged
    hbind
  have hsettled := hsteady.settled (.refl now)
  obtain ⟨source, destination, hsource, hdestination, hpure⟩ := planEntryRenameRoots_eq_planned hplan
  obtain ⟨entry, ordered, hplanned⟩ := planRename_eq_planned hsettled.linked hsource hdestination hpure
  have hentry : entry = batch.entry := by
    have hfound := hplanned.found
    rw [hunchanged, Option.some.injEq] at hfound
    exact hfound.symm
  have hrenaming : Renaming prims now.state.tree batch.filesystemId batch.target batch.expectedSourceRevision source
      destination batch.plan entry ordered := ⟨hsettled.toConsistent, hsource, hdestination, hplanned⟩
  rw [← hentry]
  apply hrenaming.carried hsettled (hrenaming.committed rfl hentry.symm rfl rfl h.tree) hadvance
  intro loaded hmem
  apply hall
  rw [hsource.mem_ancestors, hdestination.mem_ancestors]
  rcases mem_mergeChains_iff.mp hmem with hleft | ⟨hright, _⟩
  · exact .inl (List.mem_map_of_mem hleft)
  · exact .inr (List.mem_map_of_mem hright)

end Moved

end Skydriver
