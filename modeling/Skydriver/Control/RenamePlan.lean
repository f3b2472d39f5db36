import Skydriver.Control.Linkage
import Skydriver.Integrity.DirectoryTree

/-!
# What a rename plan does

The planner of renames reads two chains of ancestors, merges them where they meet, and recomputes one root after the
other, children before parents.  On a namespace in which rows, entries and roots agree, its plan takes the tree with the
entry at its new name to the same tree with every directory root recomputed.
-/

namespace Skydriver

/-- A namespace in which rows, entries and roots agree. -/
structure Tree.Consistent (prims : Primitives) (tree : Tree) : Prop where
  rooted : tree.Rooted
  linked : tree.Linked
  childRoot : ∀ {key childId dataRoot revision row}, tree.entries.lookup key = some ⟨.directory childId dataRoot, revision⟩ →
    tree.directories.lookup childId = some row → row.dataRoot = dataRoot
  roots : ∀ {id row}, tree.directories.lookup id = some row → row.state = .active →
    directoryMerkleRoot prims (tree.listing id) = .ok row.dataRoot

/-! ### What the planner reads -/

/-- The active directories of a filesystem from one of them up to its root. -/
inductive AncestorChain (tree : Tree) (filesystemId : Identity) : Identity → List LoadedDirectory → Prop where
  | top {id : Identity} {row : DirectoryRow} (hrow : tree.directories.lookup id = some row)
      (hfilesystem : row.filesystemId = filesystemId) (hactive : row.state = .active) (hparent : row.parentId = none) :
      AncestorChain tree filesystemId id [(id, row)]
  | up {id parent : Identity} {row : DirectoryRow} {rest : List LoadedDirectory}
      (hrow : tree.directories.lookup id = some row) (hfilesystem : row.filesystemId = filesystemId)
      (hactive : row.state = .active) (hparent : row.parentId = some parent)
      (habove : AncestorChain tree filesystemId parent rest) : AncestorChain tree filesystemId id ((id, row) :: rest)

section Reads

variable {μ ρ ε ι : Type} {db : Database} {filesystemId : Identity}

theorem loadAncestors_eq_some {fuel : Nat} {current : Identity} {chain found : List LoadedDirectory}
    (h : (loadAncestors filesystemId fuel current chain : Program Database μ ρ ε ι _).readOn db = some (some found)) :
    found = [] ∨ ∃ rest, found = chain ++ rest ∧ AncestorChain db.tree filesystemId current rest := by
  induction fuel generalizing current chain with
  | zero => cases h
  | succ fuel ih =>
      rw [loadAncestors] at h
      split_ifs at h
      · cases h
      rw [Program.readOn_bind, readOn_loadDirectory, Option.bind_some] at h
      cases hrow : db.tree.directories.lookup current with
      | none =>
          rw [hrow] at h
          cases h
          exact .inl rfl
      | some row =>
          rw [hrow] at h
          dsimp only at h
          split_ifs at h with hother
          · cases h
            exact .inl rfl
          rw [not_or, not_not, not_not] at hother
          cases hparent : row.parentId with
          | none =>
              rw [hparent] at h
              cases h
              exact .inr ⟨_, rfl, .top hrow hother.1 hother.2 hparent⟩
          | some parent =>
              rw [hparent] at h
              rcases ih h with hnil | ⟨rest, heq, habove⟩
              · exact .inl hnil
              · refine .inr ⟨(current, row) :: rest, ?_, .up hrow hother.1 hother.2 hparent habove⟩
                rw [heq, List.append_assoc, List.singleton_append]

theorem loadAncestorChain_eq_some {directoryId : Identity} {chain : List LoadedDirectory}
    (h : (loadAncestorChain filesystemId directoryId : Program Database μ ρ ε ι _).readOn db = some (some chain))
    (hfilled : chain.isEmpty = false) : AncestorChain db.tree filesystemId directoryId chain := by
  rcases loadAncestors_eq_some h with rfl | ⟨rest, rfl, hchain⟩
  · cases hfilled
  · exact hchain

theorem loadVerifiedEntries_eq_some {prims : Primitives} {id : Identity} {row : DirectoryRow} {stored : List StoredEntry}
    (h : (loadVerifiedEntries prims id row : Program Database μ ρ ε ι _).readOn db = some (.ok stored)) :
    stored = db.tree.storedEntries id := by
  rw [loadVerifiedEntries, Program.readOn_bind] at h
  simp only [loadDirectoryEntries, Program.query, Program.readOn_read, Program.readOn_done, Option.bind_some] at h
  split at h
  · cases h
  · split_ifs at h
    · cases h
      rfl
    · rw [Program.readOn_bind, Option.bind_eq_some_iff] at h
      obtain ⟨planning, _, hplanning⟩ := h
      cases hplanning

theorem loadVerifiedEntries_ne_planned {prims : Primitives} {id : Identity} {row : DirectoryRow} (plan : RootPlan) :
    (loadVerifiedEntries prims id row : Program Database μ ρ ε ι _).readOn db ≠ some (.error (.planned plan)) := by
  intro h
  rw [loadVerifiedEntries, Program.readOn_bind] at h
  simp only [loadDirectoryEntries, Program.query, Program.readOn_read, Program.readOn_done, Option.bind_some] at h
  split at h
  · cases h
  · split_ifs at h
    · cases h
    · rw [rootMismatch, Program.readOn_bind, Program.readOn_bind, readOn_loadDirectory, Option.bind_some] at h
      cases hrow : db.tree.directories.lookup id with
      | none =>
          rw [hrow] at h
          cases h
      | some current =>
          rw [hrow] at h
          dsimp only at h
          split_ifs at h
          · cases h
          · cases h

theorem loadListings_ne_planned {prims : Primitives} {rows : List LoadedDirectory} (plan : RootPlan) :
    (loadListings prims rows : Program Database μ ρ ε ι _).readOn db ≠ some (.error (.planned plan)) := by
  induction rows with
  | nil => simp [loadListings]
  | cons row rows ih =>
      intro h
      rw [loadListings, Program.readOn_bind, Option.bind_eq_some_iff] at h
      obtain ⟨verified, hverified, h⟩ := h
      cases verified with
      | error planning =>
          cases h
          exact loadVerifiedEntries_ne_planned plan hverified
      | ok stored =>
          dsimp only at h
          rw [Program.readOn_bind, Option.bind_eq_some_iff] at h
          obtain ⟨rest, hrest, h⟩ := h
          cases rest with
          | error planning =>
              cases h
              exact ih hrest
          | ok found => cases h

theorem loadListings_eq_some {prims : Primitives} {rows : List LoadedDirectory}
    {listings : List (LoadedDirectory × List StoredEntry)}
    (h : (loadListings prims rows : Program Database μ ρ ε ι _).readOn db = some (.ok listings)) :
    listings = rows.map fun row => (row, db.tree.storedEntries row.1) := by
  induction rows generalizing listings with
  | nil =>
      cases h
      rfl
  | cons row rows ih =>
      rw [loadListings, Program.readOn_bind, Option.bind_eq_some_iff] at h
      obtain ⟨verified, hverified, h⟩ := h
      cases verified with
      | error planning => cases h
      | ok stored =>
          dsimp only at h
          rw [Program.readOn_bind, Option.bind_eq_some_iff] at h
          obtain ⟨rest, hrest, h⟩ := h
          cases rest with
          | error planning => cases h
          | ok found =>
              cases h
              rw [List.map_cons, ← ih hrest, ← loadVerifiedEntries_eq_some hverified]

theorem planEntryRenameRoots_eq_planned {prims : Primitives} {target : RenameTarget} {expectedSourceRevision : Nat}
    {plan : RootPlan}
    (h : (planEntryRenameRoots prims filesystemId target expectedSourceRevision : Program Database μ ρ ε ι _).readOn db =
      some (.planned plan)) :
    ∃ source destination, AncestorChain db.tree filesystemId target.sourceDirectoryId source ∧
      AncestorChain db.tree filesystemId target.destinationDirectoryId destination ∧
      planRename prims target expectedSourceRevision source destination
        ((mergeChains source destination).map fun row => (row, db.tree.storedEntries row.1)) = .planned plan := by
  rw [planEntryRenameRoots, Program.readOn_bind, Option.bind_eq_some_iff] at h
  obtain ⟨source, hsource, h⟩ := h
  cases source with
  | none => cases h
  | some source =>
      dsimp only at h
      rw [Program.readOn_bind, Option.bind_eq_some_iff] at h
      obtain ⟨destination, hdestination, h⟩ := h
      cases destination with
      | none => cases h
      | some destination =>
          dsimp only at h
          split_ifs at h with hempty
          · cases h
          rw [Bool.or_eq_true, not_or, Bool.not_eq_true, Bool.not_eq_true] at hempty
          rw [Program.readOn_bind, Option.bind_eq_some_iff] at h
          obtain ⟨listings, hlistings, h⟩ := h
          cases listings with
          | error planning =>
              cases h
              exact absurd hlistings (loadListings_ne_planned plan)
          | ok listings =>
              refine ⟨source, destination, loadAncestorChain_eq_some hsource hempty.1,
                loadAncestorChain_eq_some hdestination hempty.2, ?_⟩
              rw [← loadListings_eq_some hlistings]
              exact Option.some.inj h

end Reads

/-! ### The merged chains -/

section Chains

variable {tree : Tree} {filesystemId : Identity}

theorem AncestorChain.head {id : Identity} {chain : List LoadedDirectory} (h : AncestorChain tree filesystemId id chain) :
    ∃ row, (id, row) ∈ chain := by
  cases h with
  | top _ _ _ _ => exact ⟨_, List.mem_singleton_self _⟩
  | up _ _ _ _ _ => exact ⟨_, List.mem_cons_self⟩

theorem AncestorChain.last {id : Identity} {chain : List LoadedDirectory} (h : AncestorChain tree filesystemId id chain) :
    ∃ root row, chain.getLast? = some (root, row) ∧ row.parentId = none := by
  induction h with
  | top _ _ _ hparent => exact ⟨_, _, rfl, hparent⟩
  | @up id parent row rest _ _ _ _ habove ih =>
      obtain ⟨root, last, hlast, hparent⟩ := ih
      refine ⟨root, last, ?_, hparent⟩
      obtain ⟨found, hfound⟩ := habove.head
      rw [List.getLast?_cons, hlast]
      rfl

theorem AncestorChain.row {id : Identity} {chain : List LoadedDirectory} (h : AncestorChain tree filesystemId id chain)
    {loaded : LoadedDirectory} (hmem : loaded ∈ chain) :
    tree.directories.lookup loaded.1 = some loaded.2 ∧ loaded.2.filesystemId = filesystemId ∧ loaded.2.state = .active := by
  induction h with
  | top hrow hfilesystem hactive _ =>
      rw [List.mem_singleton.mp hmem]
      exact ⟨hrow, hfilesystem, hactive⟩
  | up hrow hfilesystem hactive _ _ ih =>
      rcases List.mem_cons.mp hmem with rfl | hrest
      · exact ⟨hrow, hfilesystem, hactive⟩
      · exact ih hrest

theorem AncestorChain.parent {id : Identity} {chain : List LoadedDirectory} (h : AncestorChain tree filesystemId id chain)
    {loaded : LoadedDirectory} (hmem : loaded ∈ chain) {parent : Identity} (hparent : loaded.2.parentId = some parent) :
    ∃ above, (parent, above) ∈ chain := by
  induction h with
  | top _ _ _ hnone =>
      rw [List.mem_singleton.mp hmem, hnone] at hparent
      cases hparent
  | up _ _ _ hup habove ih =>
      rcases List.mem_cons.mp hmem with rfl | hrest
      · rw [hup] at hparent
        cases hparent
        obtain ⟨above, habove⟩ := habove.head
        exact ⟨above, List.mem_cons_of_mem _ habove⟩
      · obtain ⟨above, habove⟩ := ih hrest
        exact ⟨above, List.mem_cons_of_mem _ habove⟩

theorem AncestorChain.depth {id : Identity} {chain : List LoadedDirectory} (h : AncestorChain tree filesystemId id chain) :
    tree.Depth id chain.length := by
  induction h with
  | top hrow _ _ hparent => exact .top hrow hparent
  | up hrow _ _ hparent _ ih => exact .up hrow hparent ih

theorem AncestorChain.depthIn {id : Identity} {chain : List LoadedDirectory} (h : AncestorChain tree filesystemId id chain)
    {loaded : LoadedDirectory} (hmem : loaded ∈ chain) : tree.Depth loaded.1 (depthIn chain loaded.1 + 1) := by
  induction h with
  | top hrow _ _ hparent =>
      rw [List.mem_singleton.mp hmem]
      simp only [Skydriver.depthIn, List.map_cons, List.map_nil, List.idxOf_cons_self, List.length_singleton]
      exact .top hrow hparent
  | @up id parent row rest hrow _ _ hparent habove ih =>
      by_cases hid : loaded.1 = id
      · rw [hid]
        simp only [Skydriver.depthIn, List.map_cons, List.idxOf_cons_self, List.length_cons]
        exact .up hrow hparent habove.depth
      · have hrest : loaded ∈ rest := by
          rcases List.mem_cons.mp hmem with rfl | hrest
          · exact absurd rfl hid
          · exact hrest
        have hsame : Skydriver.depthIn ((id, row) :: rest) loaded.1 = Skydriver.depthIn rest loaded.1 := by
          simp only [Skydriver.depthIn, List.map_cons, List.length_cons, List.idxOf_cons_ne _ (Ne.symm hid)]
          omega
        rw [hsame]
        exact ih hrest

theorem depthIn_of_not_mem {chain : List LoadedDirectory} {id : Identity} (h : id ∉ chain.map Prod.fst) :
    depthIn chain id = 0 := by
  rw [depthIn, List.idxOf_eq_length h, List.length_map]
  omega

theorem AncestorChain.nodup {id : Identity} {chain : List LoadedDirectory} (h : AncestorChain tree filesystemId id chain) :
    (chain.map Prod.fst).Nodup := by
  induction h with
  | top _ _ _ _ => exact List.nodup_singleton _
  | @up id parent row rest hrow _ _ hparent habove ih =>
      rw [List.map_cons, List.nodup_cons]
      refine ⟨?_, ih⟩
      intro hmem
      obtain ⟨loaded, hloaded, rfl⟩ := List.mem_map.mp hmem
      have hlow := habove.depthIn hloaded
      have hhigh : tree.Depth loaded.1 (rest.length + 1) := .up hrow hparent habove.depth
      have heq := hlow.functional hhigh
      have hpos : 0 < rest.length := List.length_pos_of_mem hloaded
      rw [Skydriver.depthIn] at heq
      omega

/-- What the planner knows of the directories of two chains. -/
structure Merged (tree : Tree) (filesystemId : Identity) (target : RenameTarget) (rows : List LoadedDirectory) : Prop where
  row : ∀ {loaded}, loaded ∈ rows →
    tree.directories.lookup loaded.1 = some loaded.2 ∧ loaded.2.filesystemId = filesystemId ∧ loaded.2.state = .active
  parent : ∀ {loaded parentId}, loaded ∈ rows → loaded.2.parentId = some parentId → ∃ above, (parentId, above) ∈ rows
  nodup : (rows.map Prod.fst).Nodup
  source : ∃ row, (target.sourceDirectoryId, row) ∈ rows
  destination : ∃ row, (target.destinationDirectoryId, row) ∈ rows

variable {target : RenameTarget} {source destination : List LoadedDirectory}

theorem mem_mergeChains (hsource : AncestorChain tree filesystemId target.sourceDirectoryId source)
    (hdestination : AncestorChain tree filesystemId target.destinationDirectoryId destination) {loaded : LoadedDirectory} :
    loaded ∈ mergeChains source destination ↔ loaded ∈ source ∨ loaded ∈ destination := by
  rw [mergeChains, (List.perm_insertionSort _ _).mem_iff, List.mem_append, List.mem_filter]
  constructor
  · rintro (hmem | ⟨hmem, _⟩)
    · exact .inl hmem
    · exact .inr hmem
  · rintro (hmem | hmem)
    · exact .inl hmem
    · by_cases hboth : loaded.1 ∈ source.map Prod.fst
      · obtain ⟨other, hother, hid⟩ := List.mem_map.mp hboth
        have hrow := (hsource.row hother).1
        rw [hid, (hdestination.row hmem).1] at hrow
        have heq : other = loaded := Prod.ext hid (Option.some.inj hrow).symm
        exact .inl (heq ▸ hother)
      · exact .inr ⟨hmem, by simpa using hboth⟩

theorem merged_mergeChains (hsource : AncestorChain tree filesystemId target.sourceDirectoryId source)
    (hdestination : AncestorChain tree filesystemId target.destinationDirectoryId destination) :
    Merged tree filesystemId target (mergeChains source destination) where
  row := by
    intro loaded hmem
    rcases (mem_mergeChains hsource hdestination).mp hmem with hmem | hmem
    · exact hsource.row hmem
    · exact hdestination.row hmem
  parent := by
    intro loaded parentId hmem hparent
    rcases (mem_mergeChains hsource hdestination).mp hmem with hmem | hmem
    · obtain ⟨above, habove⟩ := hsource.parent hmem hparent
      exact ⟨above, (mem_mergeChains hsource hdestination).mpr (.inl habove)⟩
    · obtain ⟨above, habove⟩ := hdestination.parent hmem hparent
      exact ⟨above, (mem_mergeChains hsource hdestination).mpr (.inr habove)⟩
  nodup := by
    have hperm : (mergeChains source destination).Perm
        (source ++ destination.filter fun row => !(source.map Prod.fst).contains row.1) := List.perm_insertionSort _ _
    rw [(hperm.map Prod.fst).nodup_iff, List.map_append, List.nodup_append]
    refine ⟨hsource.nodup, hdestination.nodup.sublist (List.filter_sublist.map _), ?_⟩
    intro id hid other hother heq
    subst heq
    obtain ⟨loaded, hloaded, rfl⟩ := List.mem_map.mp hother
    have hnew := (List.mem_filter.mp hloaded).2
    rw [List.contains_iff_mem.mpr hid] at hnew
    cases hnew
  source := by
    obtain ⟨row, hrow⟩ := hsource.head
    exact ⟨row, (mem_mergeChains hsource hdestination).mpr (.inl hrow)⟩
  destination := by
    obtain ⟨row, hrow⟩ := hdestination.head
    exact ⟨row, (mem_mergeChains hsource hdestination).mpr (.inr hrow)⟩

theorem depth_mergeChains (hsource : AncestorChain tree filesystemId target.sourceDirectoryId source)
    (hdestination : AncestorChain tree filesystemId target.destinationDirectoryId destination) {loaded : LoadedDirectory}
    (hmem : loaded ∈ mergeChains source destination) :
    tree.Depth loaded.1 (max (depthIn source loaded.1) (depthIn destination loaded.1) + 1) := by
  have hone : ∀ {id chain}, AncestorChain tree filesystemId id chain → loaded ∉ chain → loaded ∈ source ∨ loaded ∈ destination →
      depthIn chain loaded.1 = 0 := by
    intro id chain hchain hnot hrow
    apply depthIn_of_not_mem
    intro hid
    obtain ⟨other, hother, heq⟩ := List.mem_map.mp hid
    have hlookup := (hchain.row hother).1
    rw [heq, ((merged_mergeChains hsource hdestination).row hmem).1] at hlookup
    exact hnot (Prod.ext heq (Option.some.inj hlookup).symm ▸ hother)
  have hwhere := (mem_mergeChains hsource hdestination).mp hmem
  by_cases hleft : loaded ∈ source
  · by_cases hright : loaded ∈ destination
    · have hsame := (hsource.depthIn hleft).functional (hdestination.depthIn hright)
      rw [Nat.add_right_cancel hsame, max_self]
      exact hdestination.depthIn hright
    · rw [hone hdestination hright hwhere, max_eq_left (Nat.zero_le _)]
      exact hsource.depthIn hleft
  · rw [hone hsource hleft hwhere, max_eq_right (Nat.zero_le _)]
    exact hdestination.depthIn (hwhere.resolve_left hleft)

end Chains

/-! ### Levels -/

def StoredEntry.childId (stored : StoredEntry) : Option Identity :=
  match stored.entry with
  | .directory _ child _ => some child
  | .file _ _ _ _ _ _ => none

theorem newRootOf_append_of_not_mem {updates more : List DirectoryUpdate} {id : Identity}
    (h : ∀ update ∈ more, update.directoryId ≠ id) : newRootOf (updates ++ more) id = newRootOf updates id := by
  have hnone : more.find? (fun update => update.directoryId == id) = none := by
    rw [List.find?_eq_none]
    intro update hupdate heq
    exact h update hupdate (beq_iff_eq.mp heq)
  rw [newRootOf, newRootOf, List.find?_append, hnone, Option.or_none]

theorem renameEntries_congr (target : RenameTarget) (moved : DirectoryMerkleEntry) {updates updates' : List DirectoryUpdate}
    (directoryId : Identity) {stored : List StoredEntry}
    (h : ∀ entry ∈ stored, ∀ child, entry.childId = some child → newRootOf updates child = newRootOf updates' child) :
    renameEntries target moved updates directoryId stored = renameEntries target moved updates' directoryId stored := by
  have hrelink : ∀ entry ∈ stored, relinkEntry updates directoryId entry = relinkEntry updates' directoryId entry := by
    intro entry hentry
    unfold relinkEntry
    split
    · rename_i name child dataRoot hdirectory
      rw [h entry hentry child (by rw [StoredEntry.childId, hdirectory])]
    · rfl
  have hkept : (stored.filter fun candidate =>
      !(directoryId == target.sourceDirectoryId && entryName candidate.entry == target.sourceName)).map
        (relinkEntry updates directoryId) = (stored.filter fun candidate =>
      !(directoryId == target.sourceDirectoryId && entryName candidate.entry == target.sourceName)).map
        (relinkEntry updates' directoryId) :=
    List.map_congr_left fun entry hentry => hrelink entry (List.mem_of_mem_filter hentry)
  simp only [renameEntries, hkept]

section Levels

variable (prims : Primitives) (target : RenameTarget) (moved : DirectoryMerkleEntry)

def levelUpdate (updates : List DirectoryUpdate) (listing : LoadedDirectory × List StoredEntry) : Option DirectoryUpdate :=
  match directoryMerkleRoot prims (renameEntries target moved updates listing.1.1 listing.2).1 with
  | .error _ => none
  | .ok newRoot =>
      if newRoot = listing.1.2.dataRoot then none
      else some ⟨listing.1.1, listing.1.2.revision, listing.1.2.dataRoot, newRoot,
        (renameEntries target moved updates listing.1.1 listing.2).1⟩

variable {prims target moved}

theorem levelUpdate_directoryId {updates : List DirectoryUpdate} {listing : LoadedDirectory × List StoredEntry}
    {update : DirectoryUpdate} (h : levelUpdate prims target moved updates listing = some update) :
    update.directoryId = listing.1.1 := by
  unfold levelUpdate at h
  split at h
  · cases h
  · split_ifs at h
    cases h
    rfl

theorem renameLevels_ne_planned {listings : List (LoadedDirectory × List StoredEntry)} {updates : List DirectoryUpdate}
    {links : List LinkUpdate} (plan : RootPlan) :
    renameLevels prims target moved listings updates links ≠ .error (.planned plan) := by
  induction listings generalizing updates links with
  | nil => simp [renameLevels]
  | cons listing rest ih =>
      obtain ⟨⟨id, row⟩, stored⟩ := listing
      rw [renameLevels]
      split
      · simp
      · split_ifs
        · exact ih
        · exact ih

/-- Children come before their parents. -/
def ChildrenFirst (listings : List (LoadedDirectory × List StoredEntry)) : Prop :=
  (∀ listing ∈ listings, ∀ entry ∈ listing.2, entry.childId ≠ some listing.1.1) ∧
    listings.Pairwise fun earlier later => ∀ entry ∈ earlier.2, entry.childId ≠ some later.1.1

/-- Where children come first, every root is computed from the final roots of the children. -/
theorem renameLevels_eq_ok {listings : List (LoadedDirectory × List StoredEntry)} (hfirst : ChildrenFirst listings)
    {updates updates' : List DirectoryUpdate} {links links' : List LinkUpdate}
    (h : renameLevels prims target moved listings updates links = .ok (updates', links')) :
    (∀ listing ∈ listings, ∃ newRoot,
        directoryMerkleRoot prims (renameEntries target moved updates' listing.1.1 listing.2).1 = .ok newRoot) ∧
      updates' = updates ++ listings.filterMap (levelUpdate prims target moved updates') ∧
      links' = links ++ listings.flatMap fun listing => (renameEntries target moved updates' listing.1.1 listing.2).2 := by
  induction listings generalizing updates links with
  | nil =>
      cases h
      simp
  | cons listing rest ih =>
      obtain ⟨⟨id, row⟩, stored⟩ := listing
      have hrest : ChildrenFirst rest :=
        ⟨fun other hother => hfirst.1 other (List.mem_cons_of_mem _ hother), (List.pairwise_cons.mp hfirst.2).2⟩
      have hself := hfirst.1 _ List.mem_cons_self
      have hlater := (List.pairwise_cons.mp hfirst.2).1
      -- nothing that is added from here on concerns a child of this directory
      have hsame : ∀ more, updates' = updates ++ more ++ rest.filterMap (levelUpdate prims target moved updates') →
          (∀ update ∈ more, update.directoryId = id) →
            renameEntries target moved updates id stored = renameEntries target moved updates' id stored := by
        intro more heq hmore
        apply renameEntries_congr
        intro entry hentry child hchild
        rw [heq, List.append_assoc]
        symm
        apply newRootOf_append_of_not_mem
        intro update hupdate hid
        rcases List.mem_append.mp hupdate with hmem | hmem
        · rw [hmore update hmem] at hid
          exact hself entry hentry (hchild.trans (congrArg some hid.symm))
        · obtain ⟨other, hother, hlevel⟩ := List.mem_filterMap.mp hmem
          rw [levelUpdate_directoryId hlevel] at hid
          exact hlater other hother entry hentry (hchild.trans (congrArg some hid.symm))
      rw [renameLevels] at h
      cases hroot : directoryMerkleRoot prims (renameEntries target moved updates id stored).1 with
      | error error =>
          rw [hroot] at h
          cases h
      | ok newRoot =>
          rw [hroot] at h
          dsimp only at h
          split_ifs at h with hunchanged
          · obtain ⟨hroots, hupdates, hlinks⟩ := ih hrest h
            have hlevel := hsame [] (by rw [List.append_nil]; exact hupdates) (by simp)
            rw [hlevel] at hroot hlinks
            refine ⟨?_, ?_, ?_⟩
            · rw [List.forall_mem_cons]
              exact ⟨⟨newRoot, hroot⟩, hroots⟩
            · rw [List.filterMap_cons_none]
              · exact hupdates
              · simp only [levelUpdate, hroot, if_pos hunchanged]
            · rw [List.flatMap_cons, ← List.append_assoc]
              exact hlinks
          · obtain ⟨hroots, hupdates, hlinks⟩ := ih hrest h
            have hlevel := hsame _ hupdates (by simp)
            rw [hlevel] at hroot hupdates hlinks
            refine ⟨?_, ?_, ?_⟩
            · rw [List.forall_mem_cons]
              exact ⟨⟨newRoot, hroot⟩, hroots⟩
            · have hsome : levelUpdate prims target moved updates' ((id, row), stored) = some ⟨id, row.revision,
                  row.dataRoot, newRoot, (renameEntries target moved updates' id stored).1⟩ := by
                simp only [levelUpdate, hroot, if_neg hunchanged]
              rw [List.filterMap_cons_some hsome]
              rw [List.append_assoc, List.singleton_append] at hupdates
              exact hupdates
            · rw [List.flatMap_cons, ← List.append_assoc]
              exact hlinks

end Levels

/-! ### From the plan back to the namespace -/

theorem entryName_merkle (name : Text) (content : EntryContent) : entryName (content.merkle name) = name := by
  cases content with
  | file _ _ _ _ _ => rfl
  | directory _ _ => rfl

theorem renamedEntry_merkle (name newName : Text) (content : EntryContent) :
    renamedEntry newName (content.merkle name) = content.merkle newName := by
  cases content with
  | file _ _ _ _ _ => rfl
  | directory _ _ => rfl

theorem Tree.mem_storedEntries {tree : Tree} {directoryId : Identity} {stored : StoredEntry} :
    stored ∈ tree.storedEntries directoryId ↔ ∃ name row, tree.entries.lookup (directoryId, name) = some row ∧
      stored = ⟨row.content.merkle name, row.revision⟩ := by
  rw [storedEntries, (KeyOrder.sortByKey_perm _ _).mem_iff, List.mem_map]
  constructor
  · rintro ⟨⟨⟨found, name⟩, row⟩, hmem, rfl⟩
    obtain ⟨hmem, hdirectory⟩ := List.mem_filter.mp hmem
    rw [beq_iff_eq] at hdirectory
    exact ⟨name, row, Table.mem_entries_iff.mp (hdirectory ▸ hmem), rfl⟩
  · rintro ⟨name, row, hrow, rfl⟩
    exact ⟨⟨(directoryId, name), row⟩, List.mem_filter.mpr ⟨Table.mem_entries_iff.mpr hrow, beq_self_eq_true _⟩, rfl⟩

theorem Tree.mem_storedEntries_childId {tree : Tree} {directoryId child : Identity} {stored : StoredEntry}
    (hmem : stored ∈ tree.storedEntries directoryId) (hchild : stored.childId = some child) :
    ∃ name dataRoot revision, tree.entries.lookup (directoryId, name) = some ⟨.directory child dataRoot, revision⟩ := by
  obtain ⟨name, ⟨content, revision⟩, hrow, rfl⟩ := Tree.mem_storedEntries.mp hmem
  cases content with
  | file fileId versionId sizeBytes dataRoot metadataRoot => cases hchild
  | directory found dataRoot =>
      cases hchild
      exact ⟨name, dataRoot, revision, hrow⟩

section Planned

variable {prims : Primitives} {tree : Tree} {filesystemId : Identity} {target : RenameTarget}
  {source destination : List LoadedDirectory}

/-- The listings in the order of the planner. -/
def deepestFirst (source destination : List LoadedDirectory) (listings : List (LoadedDirectory × List StoredEntry)) :
    List (LoadedDirectory × List StoredEntry) :=
  let depth (listing : LoadedDirectory × List StoredEntry) :=
    max (depthIn source listing.1.1) (depthIn destination listing.1.1)
  listings.insertionSort fun left right =>
    depth right < depth left ∨ (depth left = depth right ∧ left.1.1.val ≤ right.1.1.val)

theorem deepestFirst_pairwise (source destination : List LoadedDirectory)
    (listings : List (LoadedDirectory × List StoredEntry)) :
    (deepestFirst source destination listings).Pairwise fun earlier later =>
      max (depthIn source later.1.1) (depthIn destination later.1.1) ≤
        max (depthIn source earlier.1.1) (depthIn destination earlier.1.1) := by
  let depth (listing : LoadedDirectory × List StoredEntry) :=
    max (depthIn source listing.1.1) (depthIn destination listing.1.1)
  let before (left right : LoadedDirectory × List StoredEntry) : Prop :=
    depth right < depth left ∨ (depth left = depth right ∧ left.1.1.val ≤ right.1.1.val)
  have htotal : Std.Total before := by
    refine ⟨fun left right => ?_⟩
    rcases Nat.lt_trichotomy (depth left) (depth right) with hlt | heq | hlt
    · exact .inr (.inl hlt)
    · rcases Std.Total.total (r := fun first second : List UInt8 => first ≤ second) left.1.1.val right.1.1.val with
        hle | hle
      · exact .inl (.inr ⟨heq, hle⟩)
      · exact .inr (.inr ⟨heq.symm, hle⟩)
    · exact .inl (.inl hlt)
  have htrans : IsTrans _ before := by
    refine ⟨fun first second third hfirst hsecond => ?_⟩
    rcases hfirst with hlt | ⟨heq, hle⟩
    · rcases hsecond with hlt' | ⟨heq', _⟩
      · exact .inl (hlt'.trans hlt)
      · exact .inl (heq' ▸ hlt)
    · rcases hsecond with hlt' | ⟨heq', hle'⟩
      · exact .inl (heq ▸ hlt')
      · exact .inr ⟨heq.trans heq', List.le_trans hle hle'⟩
  refine (List.pairwise_insertionSort before listings).imp ?_
  rintro earlier later (hlt | ⟨heq, _⟩)
  · exact hlt.le
  · exact heq.ge

theorem childrenFirst_deepestFirst (hlinked : tree.Linked)
    (hsource : AncestorChain tree filesystemId target.sourceDirectoryId source)
    (hdestination : AncestorChain tree filesystemId target.destinationDirectoryId destination) :
    ChildrenFirst (deepestFirst source destination
      ((mergeChains source destination).map fun row => (row, tree.storedEntries row.1))) := by
  have hwhere : ∀ {listing}, listing ∈ deepestFirst source destination
      ((mergeChains source destination).map fun row => (row, tree.storedEntries row.1)) →
        listing.1 ∈ mergeChains source destination ∧ listing.2 = tree.storedEntries listing.1.1 := by
    intro listing hmem
    rw [deepestFirst, (List.perm_insertionSort _ _).mem_iff, List.mem_map] at hmem
    obtain ⟨row, hrow, rfl⟩ := hmem
    exact ⟨hrow, rfl⟩
  -- a child is one deeper than the directory that holds its entry
  have hdeeper : ∀ {upper lower : LoadedDirectory × List StoredEntry}, upper.1 ∈ mergeChains source destination →
      upper.2 = tree.storedEntries upper.1.1 → lower.1 ∈ mergeChains source destination → ∀ entry ∈ upper.2,
        entry.childId = some lower.1.1 → max (depthIn source lower.1.1) (depthIn destination lower.1.1) =
          max (depthIn source upper.1.1) (depthIn destination upper.1.1) + 1 := by
    intro upper lower hupper hstored hlower entry hentry hchild
    rw [hstored] at hentry
    obtain ⟨name, dataRoot, revision, hlookup⟩ := Tree.mem_storedEntries_childId hentry hchild
    obtain ⟨shape, hshape, hparent, _, _⟩ := hlinked.child hlookup
    obtain ⟨row, hrow, rfl⟩ := lookup_of_shapeAt hshape
    have hup : tree.Depth lower.1.1 _ := .up hrow hparent (depth_mergeChains hsource hdestination hupper)
    exact Nat.add_right_cancel ((depth_mergeChains hsource hdestination hlower).functional hup)
  constructor
  · intro listing hmem entry hentry hchild
    obtain ⟨hrow, hstored⟩ := hwhere hmem
    have := hdeeper hrow hstored hrow entry hentry hchild
    omega
  · refine (deepestFirst_pairwise source destination _).imp_of_mem ?_
    intro earlier later hearlier hlater hle entry hentry hchild
    obtain ⟨hrow, hstored⟩ := hwhere hearlier
    have := hdeeper hrow hstored (hwhere hlater).1 entry hentry hchild
    omega

theorem deepest_deepestFirst (hsource : AncestorChain tree filesystemId target.sourceDirectoryId source)
    (hdestination : AncestorChain tree filesystemId target.destinationDirectoryId destination) :
    (deepestFirst source destination
      ((mergeChains source destination).map fun row => (row, tree.storedEntries row.1))).Pairwise
        fun earlier later => ∀ rows rows', tree.Depth earlier.1.1 rows → tree.Depth later.1.1 rows' → rows' ≤ rows := by
  have hrow : ∀ {listing}, listing ∈ deepestFirst source destination
      ((mergeChains source destination).map fun row => (row, tree.storedEntries row.1)) →
        listing.1 ∈ mergeChains source destination := by
    intro listing hmem
    rw [deepestFirst, (List.perm_insertionSort _ _).mem_iff, List.mem_map] at hmem
    obtain ⟨row, hrow, rfl⟩ := hmem
    exact hrow
  refine (deepestFirst_pairwise source destination _).imp_of_mem ?_
  intro earlier later hearlier hlater hle rows rows' hdepth hdepth'
  rw [hdepth.functional (depth_mergeChains hsource hdestination (hrow hearlier)),
    hdepth'.functional (depth_mergeChains hsource hdestination (hrow hlater))]
  exact Nat.succ_le_succ hle

/-- What a rename plan rests on: the entry under its old name, its new name free, and the levels of the two chains. -/
structure RenamePlanned (prims : Primitives) (tree : Tree) (target : RenameTarget) (expectedSourceRevision : Nat)
    (source destination : List LoadedDirectory) (plan : RootPlan) (entry : EntryRow)
    (ordered : List (LoadedDirectory × List StoredEntry)) : Prop where
  found : tree.entries.lookup (target.sourceDirectoryId, target.sourceName) = some entry
  revision : entry.revision = expectedSourceRevision
  free : tree.entries.lookup (target.destinationDirectoryId, target.destinationName) = none
  acyclic : ∀ child dataRoot, entry.content = .directory child dataRoot → child ∉ destination.map Prod.fst
  perm : ordered.Perm ((mergeChains source destination).map fun row => (row, tree.storedEntries row.1))
  first : ChildrenFirst ordered
  deepest : ordered.Pairwise fun earlier later => ∀ rows rows', tree.Depth earlier.1.1 rows →
    tree.Depth later.1.1 rows' → rows' ≤ rows
  levels : renameLevels prims target (entry.content.merkle target.destinationName) ordered [] [] =
    .ok (plan.directories, plan.links)
  root : (source.getLast?.bind fun last => newRootOf plan.directories last.1) = some plan.root

theorem find_listing {rows : List LoadedDirectory} {id : Identity} {row : DirectoryRow} (hmem : (id, row) ∈ rows) :
    (((rows.map fun row => (row, tree.storedEntries row.1)).find? fun listing => listing.1.1 == id).map Prod.snd).getD [] =
      tree.storedEntries id := by
  cases hfind : (rows.map fun row => (row, tree.storedEntries row.1)).find? fun listing => listing.1.1 == id with
  | none =>
      rw [List.find?_eq_none] at hfind
      exact absurd (beq_self_eq_true id) (hfind _ (List.mem_map_of_mem hmem))
  | some listing =>
      have hid := List.find?_some hfind
      obtain ⟨found, _, rfl⟩ := List.mem_map.mp (List.mem_of_find?_eq_some hfind)
      rw [beq_iff_eq] at hid
      rw [Option.map_some, Option.getD_some]
      exact congrArg tree.storedEntries hid

theorem planRename_eq_planned {expectedSourceRevision : Nat} {plan : RootPlan} (hlinked : tree.Linked)
    (hsource : AncestorChain tree filesystemId target.sourceDirectoryId source)
    (hdestination : AncestorChain tree filesystemId target.destinationDirectoryId destination)
    (h : planRename prims target expectedSourceRevision source destination
      ((mergeChains source destination).map fun row => (row, tree.storedEntries row.1)) = .planned plan) :
    ∃ entry ordered, RenamePlanned prims tree target expectedSourceRevision source destination plan entry ordered := by
  obtain ⟨sourceRow, hsourceRow⟩ := (merged_mergeChains hsource hdestination).source
  obtain ⟨destinationRow, hdestinationRow⟩ := (merged_mergeChains hsource hdestination).destination
  rw [planRename] at h
  simp only [find_listing hsourceRow, find_listing hdestinationRow] at h
  split at h
  · cases h
  rename_i stored hstored
  obtain ⟨hfind, hrevision⟩ := Option.filter_eq_some_iff.mp hstored
  have hname := List.find?_some hfind
  obtain ⟨name, entry, hentry, rfl⟩ := Tree.mem_storedEntries.mp (List.mem_of_find?_eq_some hfind)
  rw [entryName_merkle, beq_iff_eq] at hname
  subst hname
  split_ifs at h with htaken hinside
  have hlevels : renameLevels prims target (entry.content.merkle target.destinationName)
      (deepestFirst source destination ((mergeChains source destination).map fun row => (row, tree.storedEntries row.1)))
      [] [] = .ok (plan.directories, plan.links) ∧
        (source.getLast?.bind fun last => newRootOf plan.directories last.1) = some plan.root := by
    rw [renamedEntry_merkle] at h
    split at h
    · rename_i planning herror
      rw [h] at herror
      exact absurd herror (renameLevels_ne_planned plan)
    · rename_i updates links hok
      split at h
      · cases h
      · rename_i root hroot
        cases h
        exact ⟨hok, hroot⟩
  refine ⟨entry, _, hentry, beq_iff_eq.mp hrevision, ?_, ?_, List.perm_insertionSort _ _,
    childrenFirst_deepestFirst hlinked hsource hdestination, deepest_deepestFirst hsource hdestination, hlevels.1,
    hlevels.2⟩
  · rw [Option.eq_none_iff_forall_ne_some]
    intro row hrow
    apply htaken
    rw [List.any_eq_true]
    exact ⟨_, Tree.mem_storedEntries.mpr ⟨_, row, hrow, rfl⟩, by rw [entryName_merkle, beq_self_eq_true]⟩
  · intro child dataRoot hcontent hmem
    apply hinside
    rw [hcontent]
    exact List.contains_iff_mem.mpr hmem

/-! ### The updates and the links of a plan -/

variable {expectedSourceRevision : Nat} {plan : RootPlan} {entry : EntryRow}
  {ordered : List (LoadedDirectory × List StoredEntry)}

def RootPlan.newListing (plan : RootPlan) (tree : Tree) (target : RenameTarget) (entry : EntryRow) (id : Identity) :
    List DirectoryMerkleEntry :=
  (renameEntries target (entry.content.merkle target.destinationName) plan.directories id (tree.storedEntries id)).1

section Derived

variable (h : RenamePlanned prims tree target expectedSourceRevision source destination plan entry ordered)
include h

theorem RenamePlanned.mem_ordered {listing : LoadedDirectory × List StoredEntry} :
    listing ∈ ordered ↔ listing.1 ∈ mergeChains source destination ∧ listing.2 = tree.storedEntries listing.1.1 := by
  rw [h.perm.mem_iff, List.mem_map]
  constructor
  · rintro ⟨row, hrow, rfl⟩
    exact ⟨hrow, rfl⟩
  · rintro ⟨hrow, hstored⟩
    exact ⟨listing.1, hrow, Prod.ext rfl hstored.symm⟩

theorem RenamePlanned.directories_eq : plan.directories = ordered.filterMap
    (levelUpdate prims target (entry.content.merkle target.destinationName) plan.directories) := by
  have hupdates := (renameLevels_eq_ok h.first h.levels).2.1
  rwa [List.nil_append] at hupdates

theorem RenamePlanned.nodup_ordered (hnodup : ((mergeChains source destination).map Prod.fst).Nodup) :
    (ordered.map fun listing => listing.1.1).Nodup := by
  rw [(h.perm.map _).nodup_iff, List.map_map]
  exact hnodup

theorem RenamePlanned.nodup_directories (hnodup : ((mergeChains source destination).map Prod.fst).Nodup) :
    (plan.directories.map DirectoryUpdate.directoryId).Nodup := by
  have hids : plan.directories.map DirectoryUpdate.directoryId = (ordered.filter fun listing =>
      (levelUpdate prims target (entry.content.merkle target.destinationName) plan.directories listing).isSome).map
        fun listing => listing.1.1 := by
    conv_lhs => rw [h.directories_eq]
    generalize ordered = listings
    induction listings with
    | nil => rfl
    | cons listing rest ih =>
        cases hlevel : levelUpdate prims target (entry.content.merkle target.destinationName) plan.directories listing with
        | none => rw [List.filterMap_cons_none hlevel, List.filter_cons_of_neg (by simp [hlevel]), ih]
        | some update =>
            rw [List.filterMap_cons_some hlevel, List.filter_cons_of_pos (by simp [hlevel]), List.map_cons, List.map_cons, ih,
              levelUpdate_directoryId hlevel]
  rw [hids]
  exact (h.nodup_ordered hnodup).sublist (List.filter_sublist.map _)

theorem RenamePlanned.mem_directories {update : DirectoryUpdate} :
    update ∈ plan.directories ↔ ∃ loaded ∈ mergeChains source destination,
      levelUpdate prims target (entry.content.merkle target.destinationName) plan.directories
        (loaded, tree.storedEntries loaded.1) = some update := by
  conv_lhs => rw [h.directories_eq]
  rw [List.mem_filterMap]
  constructor
  · rintro ⟨⟨loaded, stored⟩, hlisting, hlevel⟩
    obtain ⟨hmem, hstored⟩ := h.mem_ordered.mp hlisting
    dsimp only at hstored
    rw [hstored] at hlevel
    exact ⟨loaded, hmem, hlevel⟩
  · rintro ⟨loaded, hmem, hlevel⟩
    exact ⟨(loaded, tree.storedEntries loaded.1), h.mem_ordered.mpr ⟨hmem, rfl⟩, hlevel⟩

theorem RenamePlanned.newRootOf_eq_some (hnodup : ((mergeChains source destination).map Prod.fst).Nodup) {id : Identity}
    {root : Digest} : newRootOf plan.directories id = some root ↔
      ∃ update ∈ plan.directories, update.directoryId = id ∧ update.newRoot = root := by
  rw [newRootOf, Option.map_eq_some_iff]
  constructor
  · rintro ⟨update, hfind, hroot⟩
    have hid := List.find?_some hfind
    rw [beq_iff_eq] at hid
    exact ⟨update, List.mem_of_find?_eq_some hfind, hid, hroot⟩
  · rintro ⟨update, hmem, rfl, rfl⟩
    refine ⟨update, ?_, rfl⟩
    cases hfind : plan.directories.find? fun other => other.directoryId == update.directoryId with
    | none =>
        rw [List.find?_eq_none] at hfind
        exact absurd (beq_self_eq_true _) (hfind update hmem)
    | some other =>
        have hid := List.find?_some hfind
        rw [beq_iff_eq] at hid
        rw [List.inj_on_of_nodup_map (h.nodup_directories hnodup) (List.mem_of_find?_eq_some hfind) hmem hid]

/-- Each directory of the chains has a new root, which the plan writes if it differs. -/
theorem RenamePlanned.level (hnodup : ((mergeChains source destination).map Prod.fst).Nodup) {loaded : LoadedDirectory}
    (hmem : loaded ∈ mergeChains source destination) :
    ∃ newRoot, directoryMerkleRoot prims (plan.newListing tree target entry loaded.1) = .ok newRoot ∧
      newRootOf plan.directories loaded.1 = if newRoot = loaded.2.dataRoot then none else some newRoot := by
  obtain ⟨newRoot, hroot⟩ := (renameLevels_eq_ok h.first h.levels).1 (loaded, tree.storedEntries loaded.1)
    (h.mem_ordered.mpr ⟨hmem, rfl⟩)
  refine ⟨newRoot, hroot, ?_⟩
  split_ifs with hsame
  · rw [Option.eq_none_iff_forall_ne_some]
    intro found hfound
    obtain ⟨update, hupdate, hid, rfl⟩ := (h.newRootOf_eq_some hnodup).mp hfound
    obtain ⟨other, hother, hlevel⟩ := h.mem_directories.mp hupdate
    have heq : other = loaded :=
      List.inj_on_of_nodup_map hnodup hother hmem ((levelUpdate_directoryId hlevel).symm.trans hid)
    rw [heq] at hlevel
    simp only [levelUpdate, hroot, if_pos hsame] at hlevel
    cases hlevel
  · apply (h.newRootOf_eq_some hnodup).mpr
    refine ⟨⟨loaded.1, loaded.2.revision, loaded.2.dataRoot, newRoot, plan.newListing tree target entry loaded.1⟩,
      h.mem_directories.mpr ⟨loaded, hmem, ?_⟩, rfl, rfl⟩
    simp only [levelUpdate, hroot, if_neg hsame]
    rfl

end Derived

end Planned

end Skydriver
