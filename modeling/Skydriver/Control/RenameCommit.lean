import Skydriver.Control.RenameReads

/-!
# Rename plans that commit

A rename checks, like a removal, only afterwards that each new root of its plan is in place, and its plan may leave
directories of the two chains out.  Still a rename that commits carries out the plan of the very state it commits on.
The source directory would have to list the entry no more, and the destination directory would have to list it already;
from there on, directory by directory in the order of the plan, each parent would have to list the new root of a child
that still has the old one.
-/

namespace Skydriver

/-! ### The merged chains -/

section Chains

variable {source destination : List LoadedDirectory}

theorem mem_mergeChains_iff {loaded : LoadedDirectory} : loaded ∈ mergeChains source destination ↔
    loaded ∈ source ∨ (loaded ∈ destination ∧ loaded.1 ∉ source.map Prod.fst) := by
  rw [mergeChains, (List.perm_insertionSort _ _).mem_iff, List.mem_append, List.mem_filter, Bool.not_eq_true',
    Bool.eq_false_iff, Ne, List.contains_iff_mem]

theorem nodup_mergeChains (hsource : (source.map Prod.fst).Nodup) (hdestination : (destination.map Prod.fst).Nodup) :
    ((mergeChains source destination).map Prod.fst).Nodup := by
  have hperm : (mergeChains source destination).Perm
      (source ++ destination.filter fun row => !(source.map Prod.fst).contains row.1) := List.perm_insertionSort _ _
  rw [(hperm.map Prod.fst).nodup_iff, List.map_append, List.nodup_append]
  refine ⟨hsource, hdestination.sublist (List.filter_sublist.map _), ?_⟩
  intro id hid other hother heq
  obtain ⟨loaded, hloaded, rfl⟩ := List.mem_map.mp hother
  have hnew := (List.mem_filter.mp hloaded).2
  rw [List.contains_iff_mem.mpr (heq ▸ hid)] at hnew
  cases hnew

theorem exists_merged {loaded : LoadedDirectory} (h : loaded ∈ source ∨ loaded ∈ destination) :
    ∃ other ∈ mergeChains source destination, other.1 = loaded.1 ∧ (other ∈ source ∨ other = loaded) := by
  rcases h with hmem | hmem
  · exact ⟨loaded, mem_mergeChains_iff.mpr (.inl hmem), rfl, .inl hmem⟩
  · by_cases hboth : loaded.1 ∈ source.map Prod.fst
    · obtain ⟨other, hother, hid⟩ := List.mem_map.mp hboth
      exact ⟨other, mem_mergeChains_iff.mpr (.inl hother), hid, .inl hother⟩
    · exact ⟨loaded, mem_mergeChains_iff.mpr (.inr ⟨hmem, hboth⟩), rfl, .inr rfl⟩

/-- How far down the planner sorts a directory. -/
def mergedDepth (source destination : List LoadedDirectory) (id : Identity) : Nat :=
  max (depthIn source id) (depthIn destination id)

theorem depthIn_lt {chain : List LoadedDirectory} {id : Identity} (h : id ∈ chain.map Prod.fst) :
    depthIn chain id < chain.length := by
  have hplace := List.idxOf_lt_length_of_mem h
  rw [List.length_map] at hplace
  rw [depthIn]
  omega

theorem deepest_chain {id : Identity} (h : id ∈ (mergeChains source destination).map Prod.fst) :
    (id ∈ source.map Prod.fst ∧ mergedDepth source destination id = depthIn source id) ∨
      (id ∈ destination.map Prod.fst ∧ mergedDepth source destination id = depthIn destination id) := by
  obtain ⟨loaded, hloaded, rfl⟩ := List.mem_map.mp h
  by_cases hsource : loaded.1 ∈ source.map Prod.fst
  · by_cases hdestination : loaded.1 ∈ destination.map Prod.fst
    · rcases max_choice (depthIn source loaded.1) (depthIn destination loaded.1) with hleft | hright
      · exact .inl ⟨hsource, hleft⟩
      · exact .inr ⟨hdestination, hright⟩
    · refine .inl ⟨hsource, ?_⟩
      rw [mergedDepth, depthIn_of_not_mem hdestination, max_eq_left (Nat.zero_le _)]
  · rcases mem_mergeChains_iff.mp hloaded with hmem | ⟨hmem, _⟩
    · exact absurd (List.mem_map_of_mem hmem) hsource
    · refine .inr ⟨List.mem_map_of_mem hmem, ?_⟩
      rw [mergedDepth, depthIn_of_not_mem hsource, max_eq_right (Nat.zero_le _)]

end Chains

/-! ### What was read -/

/-- What a rename planner read, and when: the source chain up to `middle`, the destination chain up to `between`, and
then the listings. -/
structure RenameRead {μ : Type} (prims : Primitives) (filesystemId : Identity) (target : RenameTarget)
    (expectedSourceRevision : Nat) (source destination : List LoadedDirectory)
    (listings : List (LoadedDirectory × List StoredEntry)) (plan : RootPlan)
    (first middle between last : Moment Database μ) : Prop where
  sourceChain : ReadChain filesystemId first middle target.sourceDirectoryId source
  sourceOnce : (source.map Prod.fst).Nodup
  sourceShort : source.length ≤ maximumDirectoryDepth
  destinationChain : ReadChain filesystemId middle between target.destinationDirectoryId destination
  destinationOnce : (destination.map Prod.fst).Nodup
  destinationShort : destination.length ≤ maximumDirectoryDepth
  ends : between.Before last
  rows : listings.map Prod.fst = mergeChains source destination
  listed : ∀ listing ∈ listings, ListedBetween prims between last listing.1 listing.2
  planned : planRename prims target expectedSourceRevision source destination listings = .planned plan

section Reads

variable {μ ρ ε ι : Type} {prims : Primitives} {filesystemId : Identity} {first last : Moment Database μ}

theorem loadListings_not_planned {rows : List LoadedDirectory} (plan : RootPlan) :
    ¬(loadListings prims rows : Program Database μ ρ ε ι _).Yields first (.error (.planned plan)) last := by
  induction rows generalizing first with
  | nil =>
      intro h
      cases (Program.yields_done_iff.mp h).1
  | cons row rows ih =>
      intro h
      rw [loadListings, Program.yields_bind_iff] at h
      obtain ⟨middle, verified, hverified, h⟩ := h
      cases verified with
      | error planning =>
          obtain ⟨hplanning, rfl⟩ := Program.yields_done_iff.mp h
          cases hplanning
          exact loadVerifiedEntries_not_planned plan hverified
      | ok stored =>
          dsimp only at h
          obtain ⟨late, rest, hrest, h⟩ := Program.yields_bind_iff.mp h
          cases rest with
          | error planning =>
              obtain ⟨hplanning, rfl⟩ := Program.yields_done_iff.mp h
              cases hplanning
              exact ih hrest
          | ok found => cases (Program.yields_done_iff.mp h).1

theorem readChain_of_loadAncestorChain {directoryId : Identity} {chain : List LoadedDirectory}
    (h : (loadAncestorChain filesystemId directoryId : Program Database μ ρ ε ι _).Yields first (some chain) last)
    (hfilled : chain.isEmpty = false) :
    ReadChain filesystemId first last directoryId chain ∧ (chain.map Prod.fst).Nodup ∧
      chain.length ≤ maximumDirectoryDepth := by
  have hempty : (([] : List LoadedDirectory).map Prod.fst).Nodup := List.nodup_nil
  rcases readChain_of_loadAncestors hempty h with rfl | ⟨rest, rfl, hchain, hnodup, hlength⟩
  · cases hfilled
  · exact ⟨hchain, hnodup, hlength⟩

theorem renameRead_of_yields {target : RenameTarget} {expectedSourceRevision : Nat} {plan : RootPlan}
    (h : (planEntryRenameRoots prims filesystemId target expectedSourceRevision : Program Database μ ρ ε ι _).Yields first
      (.planned plan) last) :
    ∃ source destination listings middle between, RenameRead prims filesystemId target expectedSourceRevision source
      destination listings plan first middle between last := by
  rw [planEntryRenameRoots, Program.yields_bind_iff] at h
  obtain ⟨middle, source, hsource, h⟩ := h
  cases source with
  | none => cases (Program.yields_done_iff.mp h).1
  | some source =>
      dsimp only at h
      rw [Program.yields_bind_iff] at h
      obtain ⟨between, destination, hdestination, h⟩ := h
      cases destination with
      | none => cases (Program.yields_done_iff.mp h).1
      | some destination =>
          dsimp only at h
          split_ifs at h with hempty
          · cases (Program.yields_done_iff.mp h).1
          rw [Bool.or_eq_true, not_or, Bool.not_eq_true, Bool.not_eq_true] at hempty
          rw [Program.yields_bind_iff] at h
          obtain ⟨late, listings, hlistings, h⟩ := h
          cases listings with
          | error planning =>
              obtain ⟨hplanning, rfl⟩ := Program.yields_done_iff.mp h
              cases hplanning
              exact absurd hlistings (loadListings_not_planned plan)
          | ok listings =>
              obtain ⟨hplan, rfl⟩ := Program.yields_done_iff.mp h
              obtain ⟨hsource, hsourceOnce, hsourceShort⟩ := readChain_of_loadAncestorChain hsource hempty.1
              obtain ⟨hdestination, hdestinationOnce, hdestinationShort⟩ :=
                readChain_of_loadAncestorChain hdestination hempty.2
              obtain ⟨hrows, hlisted⟩ := listed_of_loadListings hlistings
              exact ⟨source, destination, listings, middle, between, hsource, hsourceOnce, hsourceShort, hdestination,
                hdestinationOnce, hdestinationShort, hlistings.before, hrows, hlisted, hplan.symm⟩

end Reads

/-! ### Levels that are not carried out yet -/

theorem entryName_renamedEntry (name : Text) (entry : DirectoryMerkleEntry) :
    entryName (renamedEntry name entry) = name := by
  cases entry with
  | file _ _ _ _ _ _ => rfl
  | directory _ _ _ => rfl

theorem entryName_relinkEntry (updates : List DirectoryUpdate) (id : Identity) (stored : StoredEntry) :
    entryName (relinkEntry updates id stored).1 = entryName stored.entry := by
  unfold relinkEntry
  split
  · rename_i name child dataRoot hentry
    rw [hentry]
    split
    · rfl
    · rfl
  · rfl

/-- What a level lists: the entries the directory keeps, with the new roots of their children, and the moved entry. -/
theorem mem_renameEntries {target : RenameTarget} {moved : DirectoryMerkleEntry} {seen : List DirectoryUpdate}
    {id : Identity} {stored : List StoredEntry} {listed : DirectoryMerkleEntry} :
    listed ∈ (renameEntries target moved seen id stored).1 ↔
      (∃ candidate ∈ stored, ¬(id = target.sourceDirectoryId ∧ entryName candidate.entry = target.sourceName) ∧
        listed = (relinkEntry seen id candidate).1) ∨ (id = target.destinationDirectoryId ∧ listed = moved) := by
  rw [renameEntries]
  dsimp only
  rw [List.mem_append, List.map_map, List.mem_map]
  refine or_congr ?_ ?_
  · constructor
    · intro h
      obtain ⟨candidate, hcandidate, rfl⟩ := h
      obtain ⟨hmem, hkept⟩ := List.mem_filter.mp hcandidate
      refine ⟨candidate, hmem, ?_, rfl⟩
      intro hsource
      rw [hsource.1, hsource.2, beq_self_eq_true, beq_self_eq_true] at hkept
      cases hkept
    · intro h
      obtain ⟨candidate, hmem, hkept, rfl⟩ := h
      refine ⟨candidate, List.mem_filter.mpr ⟨hmem, ?_⟩, rfl⟩
      rw [Bool.not_eq_true', Bool.eq_false_iff, Ne, Bool.and_eq_true, beq_iff_eq, beq_iff_eq]
      exact hkept
  · split_ifs with hdestination
    · rw [List.mem_singleton]
      exact ⟨fun h => ⟨hdestination, h⟩, fun h => h.2⟩
    · exact ⟨fun h => absurd h List.not_mem_nil, fun h => absurd h.1 hdestination⟩

/-- What a rename that commits finds: its entry under the old name, no other under the new one, and each directory of
its plan as the plan expects it or with its new root.  No two listings that the plan tells apart have the same root. -/
structure RenameFound (prims : Primitives) (tree : Tree) (target : RenameTarget) (moved : StoredEntry)
    (listings : List (LoadedDirectory × List StoredEntry)) (plan : RootPlan) : Prop where
  once : (plan.directories.map DirectoryUpdate.directoryId).Nodup
  distinct : ¬(target.sourceDirectoryId = target.destinationDirectoryId ∧ target.sourceName = target.destinationName)
  found : ∃ row, tree.entries.lookup (target.sourceDirectoryId, target.sourceName) = some row
  free : tree.entries.lookup (target.destinationDirectoryId, target.destinationName) = none
  swap : ∀ update ∈ plan.directories, update.directoryId ∈ tree.ancestors target.sourceDirectoryId ∨
    update.directoryId ∈ tree.ancestors target.destinationDirectoryId → ∃ row,
      tree.directories.lookup update.directoryId = some row ∧
        (row.revision = update.expectedRevision ∨ row.dataRoot = update.newRoot)
  bind : ∀ update ∈ plan.directories, ListingsBind prims update.newEntries (tree.listing update.directoryId)
  bindLevel : ∀ listing ∈ listings, ∀ seen, seen <+: plan.directories → ListingsBind prims
    (renameEntries target (renamedEntry target.destinationName moved.entry) seen listing.1.1 listing.2).1
    (listing.2.map StoredEntry.entry)

theorem Tree.Settled.listed_root {prims : Primitives} {tree : Tree} (h : tree.Settled prims) {id child : Identity} {name : Text}
    {root : Digest} {row : DirectoryRow} (hrow : tree.directories.lookup child = some row)
    (hlisted : DirectoryMerkleEntry.directory name child root ∈ tree.listing id) : row.dataRoot = root := by
  obtain ⟨found, ⟨content, revision⟩, hentry, hsame⟩ := Tree.mem_listing.mp hlisted
  cases content with
  | file _ _ _ _ _ => cases hsame
  | directory _ _ =>
      cases hsame
      exact h.childRoot hentry hrow

section Current

variable {prims : Primitives} {filesystemId : Identity} {target : RenameTarget} {expectedSourceRevision : Nat}
  {source destination : List LoadedDirectory} {listings : List (LoadedDirectory × List StoredEntry)} {plan : RootPlan}
  {moved : StoredEntry} {now first middle between last : Instant}

/-- A directory of either chain in the state that a rename finds, and with a new root to come. -/
structure RenameCurrent (tree : Tree) (target : RenameTarget) (plan : RootPlan) (loaded : LoadedDirectory) : Prop where
  row : tree.directories.lookup loaded.1 = some loaded.2
  above : loaded.1 ∈ tree.ancestors target.sourceDirectoryId ∨ loaded.1 ∈ tree.ancestors target.destinationDirectoryId
  updated : ∃ update ∈ plan.directories, update.directoryId = loaded.1 ∧ update.newRoot ≠ loaded.2.dataRoot

section Levels

variable (hread : RenameRead prims filesystemId target expectedSourceRevision source destination listings plan first
    middle between last)
  (hchecked : RenameChecked prims target expectedSourceRevision source destination listings plan moved)
  (hfound : RenameFound prims now.state.tree target moved listings plan) (hsteady : Steady prims now)
  (hlast : last.Before now)

include hread in
theorem RenameRead.row {loaded : LoadedDirectory} (hmem : loaded ∈ mergeChains source destination) :
    ∃ moment : Instant, moment.Before between ∧ moment.state.tree.directories.lookup loaded.1 = some loaded.2 := by
  rcases mem_mergeChains_iff.mp hmem with hsource | ⟨hdestination, _⟩
  · obtain ⟨moment, _, hmoment, hrow⟩ := hread.sourceChain.row hsource
    exact ⟨moment, hmoment.trans hread.destinationChain.before, hrow⟩
  · obtain ⟨moment, _, hmoment, hrow⟩ := hread.destinationChain.row hdestination
    exact ⟨moment, hmoment, hrow⟩

include hread hfound hsteady hlast in
/-- A level that would change what its directory lists, now as when it was planned, is still to be carried out. -/
theorem RenameRead.current_of_open {listing : LoadedDirectory × List StoredEntry} (hmem : listing ∈ listings)
    {seen : List DirectoryUpdate} {newRoot : Digest}
    (hlevel : LevelOf prims target (renamedEntry target.destinationName moved.entry) plan.directories listing seen newRoot)
    (habove : listing.1.1 ∈ now.state.tree.ancestors target.sourceDirectoryId ∨
      listing.1.1 ∈ now.state.tree.ancestors target.destinationDirectoryId)
    (hplanned : ¬(renameEntries target (renamedEntry target.destinationName moved.entry) seen listing.1.1
      listing.2).1.Perm (listing.2.map StoredEntry.entry))
    (hopen : ¬(renameEntries target (renamedEntry target.destinationName moved.entry) seen listing.1.1
      listing.2).1.Perm (now.state.tree.listing listing.1.1)) :
    RenameCurrent now.state.tree target plan listing.1 := by
  obtain ⟨late, hlate, hend, hstored, hroot⟩ := hread.listed listing hmem
  have hchanged : newRoot ≠ listing.1.2.dataRoot := by
    intro hsame
    exact hplanned (hfound.bindLevel listing hmem seen hlevel.earlier _ (hsame ▸ hlevel.computed) hroot)
  have hupdate := hlevel.updated hchanged
  refine ⟨?_, habove, _, hupdate, rfl, hchanged⟩
  have hloaded : listing.1 ∈ mergeChains source destination := hread.rows ▸ List.mem_map_of_mem hmem
  obtain ⟨moment, hmoment, hrow⟩ := hread.row hloaded
  obtain ⟨current, hcurrent, hstate⟩ := hfound.swap _ hupdate habove
  rcases hstate with hrevision | hnew
  · obtain ⟨rfl, _⟩ := hsteady.held (hmoment.trans (hlate.trans (hend.trans hlast))) (.refl now) hrow hcurrent hrevision
    exact hcurrent
  · have hlisted := (hsteady.settled (.refl now)).root hcurrent
    rw [hnew] at hlisted
    exact absurd (hfound.bind _ hupdate _ hlevel.computed hlisted) hopen

include hread hchecked hfound hsteady hlast in
theorem RenameRead.current_source {listing : LoadedDirectory × List StoredEntry} (hmem : listing ∈ listings)
    (hid : listing.1.1 = target.sourceDirectoryId) {seen : List DirectoryUpdate} {newRoot : Digest}
    (hlevel : LevelOf prims target (renamedEntry target.destinationName moved.entry) plan.directories listing seen
      newRoot) : RenameCurrent now.state.tree target plan listing.1 := by
  obtain ⟨row, hrow⟩ := hfound.found
  obtain ⟨directory, hdirectory, _⟩ := (hsteady.settled (.refl now)).housed hrow
  -- the new listing does not have the old name
  have hgone : ∀ listed ∈ (renameEntries target (renamedEntry target.destinationName moved.entry) seen listing.1.1
      listing.2).1, entryName listed ≠ target.sourceName := by
    intro listed hlisted hname
    rcases mem_renameEntries.mp hlisted with ⟨candidate, _, hkept, rfl⟩ | ⟨hdestination, rfl⟩
    · rw [entryName_relinkEntry] at hname
      exact hkept ⟨hid, hname⟩
    · rw [entryName_renamedEntry] at hname
      exact hfound.distinct ⟨hid.symm.trans hdestination, hname.symm⟩
  apply hread.current_of_open hfound hsteady hlast hmem hlevel
  · rw [hid]
    exact .inl (Tree.mem_ancestors.mpr ⟨0, .refl hdirectory⟩)
  · intro hperm
    have hfind := hchecked.found listing hmem hid
    have hname := List.find?_some hfind
    have hstored := List.mem_map_of_mem (f := StoredEntry.entry) (List.mem_of_find?_eq_some hfind)
    exact hgone _ (hperm.mem_iff.mpr hstored) (beq_iff_eq.mp hname)
  · intro hperm
    rw [hid] at hperm hgone
    exact hgone _ (hperm.mem_iff.mpr (Tree.mem_listing.mpr ⟨_, _, hrow, rfl⟩)) (entryName_merkle _ _)

include hread hchecked hfound hsteady hlast in
theorem RenameRead.current_destination {listing : LoadedDirectory × List StoredEntry} (hmem : listing ∈ listings)
    (hid : listing.1.1 = target.destinationDirectoryId) {seen : List DirectoryUpdate} {newRoot : Digest}
    (hlevel : LevelOf prims target (renamedEntry target.destinationName moved.entry) plan.directories listing seen
      newRoot) : RenameCurrent now.state.tree target plan listing.1 := by
  have hnew : renamedEntry target.destinationName moved.entry ∈ (renameEntries target
      (renamedEntry target.destinationName moved.entry) seen listing.1.1 listing.2).1 :=
    mem_renameEntries.mpr (.inr ⟨hid, rfl⟩)
  -- the directory of the chain is a directory to this day
  obtain ⟨loaded, hloaded, hhead⟩ := List.mem_map.mp hread.destinationChain.head
  obtain ⟨moment, _, hmoment, hrow⟩ := hread.destinationChain.row hloaded
  obtain ⟨late, hlate, hend, _⟩ := hread.listed listing hmem
  obtain ⟨current, hcurrent, _⟩ :=
    (hsteady.pinned (hmoment.trans (hlate.trans (hend.trans hlast))) (.refl now)).rows _ _ hrow
  rw [hhead] at hcurrent
  apply hread.current_of_open hfound hsteady hlast hmem hlevel
  · rw [hid]
    exact .inr (Tree.mem_ancestors.mpr ⟨0, .refl hcurrent⟩)
  · intro hperm
    obtain ⟨stored, hstored, hsame⟩ := List.mem_map.mp (hperm.mem_iff.mp hnew)
    apply hchecked.free listing hmem hid stored hstored
    rw [hsame, entryName_renamedEntry]
  · intro hperm
    rw [hid] at hperm hnew
    obtain ⟨name, row, hentry, hsame⟩ := Tree.mem_listing.mp (hperm.mem_iff.mp hnew)
    have hname := congrArg entryName hsame
    rw [entryName_renamedEntry, entryName_merkle] at hname
    rw [← hname, hfound.free] at hentry
    cases hentry

include hread hchecked hfound hsteady hlast in
theorem RenameRead.current_parent {child : LoadedDirectory} (hcurrent : RenameCurrent now.state.tree target plan child)
    {listing : LoadedDirectory × List StoredEntry}
    (hchain : (child ∈ source ∧ listing.1.1 ≠ target.sourceDirectoryId) ∨ child ∈ destination)
    (hmem : listing ∈ listings) (hparent : child.2.parentId = some listing.1.1) {seen : List DirectoryUpdate} {newRoot : Digest}
    (hlevel : LevelOf prims target (renamedEntry target.destinationName moved.entry) plan.directories listing seen
      newRoot)
    (hseen : ∀ update ∈ plan.directories, update.directoryId = child.1 → update ∈ seen) :
    RenameCurrent now.state.tree target plan listing.1 := by
  obtain ⟨update, hupdate, hupdated, hchanged⟩ := hcurrent.updated
  obtain ⟨late, hlate, hend, hstored, _⟩ := hread.listed listing hmem
  -- the child has its row when the listing is read
  have hread' : ∃ moment : Instant, moment.Before between ∧
      moment.state.tree.directories.lookup child.1 = some child.2 ∧ child.2.state = .active := by
    rcases hchain with ⟨hsource, _⟩ | hdestination
    · obtain ⟨moment, _, hmoment, hrow⟩ := hread.sourceChain.row hsource
      exact ⟨moment, hmoment.trans hread.destinationChain.before, hrow, hread.sourceChain.active hsource⟩
    · obtain ⟨moment, _, hmoment, hrow⟩ := hread.destinationChain.row hdestination
      exact ⟨moment, hmoment, hrow, hread.destinationChain.active hdestination⟩
  obtain ⟨moment, hmoment, hrow, hactive⟩ := hread'
  obtain ⟨_, hmiddle, _⟩ := hsteady.held (hmoment.trans hlate) (hend.trans hlast) hrow hcurrent.row rfl
  have hsettled := hsteady.settled (hend.trans hlast)
  obtain ⟨dataRoot, revision, hentry⟩ := hsettled.linked.entry (shapeAt_of_lookup hmiddle) hactive hparent
  have hcandidate : (⟨.directory child.2.name child.1 dataRoot, revision⟩ : StoredEntry) ∈ listing.2 := by
    rw [hstored]
    exact Tree.mem_storedEntries.mpr ⟨_, _, hentry, rfl⟩
  -- the moved entry is of another directory
  have hkept : ¬(listing.1.1 = target.sourceDirectoryId ∧ child.2.name = target.sourceName) := by
    intro hsource
    have hfind := hchecked.found listing hmem hsource.1
    rw [hstored, Tree.find_storedEntries, ← hsource.2] at hfind
    have hmoved : moved.childId = some child.1 := by
      have hlookup : late.state.tree.entries.lookup (listing.1.1, child.2.name) =
          some ⟨.directory child.1 dataRoot, revision⟩ := hentry
      rw [hlookup, Option.map_some, Option.some.injEq] at hfind
      rw [← hfind]
      rfl
    rcases hchain with ⟨_, hother⟩ | hright
    · exact hother hsource.1
    · exact hchecked.acyclic _ hmoved (List.mem_map_of_mem hright)
  have hroot : newRootOf seen child.1 = some update.newRoot := by
    have honce : (seen.map DirectoryUpdate.directoryId).Nodup := hfound.once.sublist (hlevel.earlier.sublist.map _)
    exact (newRootOf_eq_some honce).mpr ⟨update, hseen update hupdate hupdated, hupdated, rfl⟩
  have hnew : DirectoryMerkleEntry.directory child.2.name child.1 update.newRoot ∈ (renameEntries target
      (renamedEntry target.destinationName moved.entry) seen listing.1.1 listing.2).1 := by
    refine mem_renameEntries.mpr (.inl ⟨_, hcandidate, hkept, ?_⟩)
    simp only [relinkEntry, hroot]
  apply hread.current_of_open hfound hsteady hlast hmem hlevel
  · have hrooted := (hsteady.settled (.refl now)).rooted
    rcases hcurrent.above with hleft | hright
    · exact .inl (Tree.ancestors_parent hrooted hleft hcurrent.row hparent)
    · exact .inr (Tree.ancestors_parent hrooted hright hcurrent.row hparent)
  · intro hperm
    have hlisted := hperm.mem_iff.mp hnew
    rw [hstored] at hlisted
    exact hchanged (hsettled.listed_root hmiddle hlisted).symm
  · intro hperm
    exact hchanged ((hsteady.settled (.refl now)).listed_root hcurrent.row (hperm.mem_iff.mp hnew)).symm

include hread hsteady hlast in
/-- The second chain has the row that the first one had, if it is still the row. -/
theorem RenameRead.destination_row {loaded other : LoadedDirectory} (hmem : loaded ∈ destination) (hother : other ∈ source)
    (hid : other.1 = loaded.1) (hcurrent : now.state.tree.directories.lookup other.1 = some other.2) :
    other = loaded := by
  obtain ⟨early, _, hearly, hrow⟩ := hread.sourceChain.row hother
  obtain ⟨moment, hmoment, hbetween, hlookup⟩ := hread.destinationChain.row hmem
  obtain ⟨_, hmiddle, _⟩ := hsteady.held (hearly.trans hmoment) (hbetween.trans (hread.ends.trans hlast)) hrow hcurrent rfl
  rw [hid, hlookup, Option.some.injEq] at hmiddle
  exact Prod.ext hid hmiddle.symm

include hread hchecked hfound hsteady hlast in
theorem RenameRead.current {loaded : LoadedDirectory} (hmem : loaded ∈ mergeChains source destination) :
    RenameCurrent now.state.tree target plan loaded := by
  -- from the deepest directories up, in the order of the plan
  induction hplace : source.length + destination.length - mergedDepth source destination loaded.1 using
    Nat.strong_induction_on generalizing loaded with
  | h place ih =>
      subst hplace
      have hrows := hread.rows
      rw [← hrows] at hmem
      obtain ⟨listing, hlisting, rfl⟩ := List.mem_map.mp hmem
      rw [hrows] at hmem
      obtain ⟨seen, newRoot, hlevel, hsees⟩ := levelOf_of_renameLevels (deepestFirst_pairwise source destination listings)
        hchecked.levels ((List.perm_insertionSort _ _).mem_iff.mpr hlisting)
      have hseen : ∀ {child : Identity}, mergedDepth source destination listing.1.1 < mergedDepth source destination child →
          ∀ update ∈ plan.directories, update.directoryId = child → update ∈ seen := by
        intro child hdeeper update hupdate hid
        rcases hsees update hupdate with hold | hhere | ⟨later, hlater, hsame⟩
        · exact hold
        · rw [← hid, hhere] at hdeeper
          exact absurd hdeeper (lt_irrefl _)
        · rw [← hid, ← hsame] at hdeeper
          exact absurd hdeeper (not_lt.mpr hlater)
      rcases deepest_chain (List.mem_map_of_mem hmem) with ⟨hin, hdepth⟩ | ⟨hin, hdepth⟩
      · have hbound := depthIn_lt hin
        by_cases hstart : listing.1.1 = target.sourceDirectoryId
        · exact hread.current_source hchecked hfound hsteady hlast hlisting hstart hlevel
        · obtain ⟨child, hchild, hparent, hbelow⟩ := hread.sourceChain.child hread.sourceOnce hin hstart
          have hdeep : depthIn source child.1 ≤ mergedDepth source destination child.1 := le_max_left _ _
          have hcurrent := ih _ (by omega) (mem_mergeChains_iff.mpr (.inl hchild)) rfl
          exact hread.current_parent hchecked hfound hsteady hlast hcurrent (.inl ⟨hchild, hstart⟩) hlisting hparent
            hlevel (hseen (by omega))
      · have hbound := depthIn_lt hin
        by_cases hstart : listing.1.1 = target.destinationDirectoryId
        · exact hread.current_destination hchecked hfound hsteady hlast hlisting hstart hlevel
        · obtain ⟨child, hchild, hparent, hbelow⟩ := hread.destinationChain.child hread.destinationOnce hin hstart
          have hdeep : depthIn destination child.1 ≤ mergedDepth source destination child.1 := le_max_right _ _
          have hplaced : child ∈ source ∨ child ∈ destination := .inr hchild
          obtain ⟨other, hother, hid, hwhere⟩ := exists_merged hplaced
          have hcurrent := ih _ (by rw [hid]; omega) hother rfl
          -- the row of the first chain is the row of the second
          have hsame : other = child := by
            rcases hwhere with hsource | heq
            · exact hread.destination_row hsteady hlast hchild hsource hid hcurrent.row
            · exact heq
          exact hread.current_parent hchecked hfound hsteady hlast (hsame ▸ hcurrent) (.inr hchild) hlisting hparent
            hlevel (hseen (by omega))

end Levels

end Current

end Skydriver
