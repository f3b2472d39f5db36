import Skydriver.Control.ChainPlan

/-!
# The edits of the namespace batches

Before it rewrites roots, a put writes one entry, mkdir a directory with its entry, a removal deletes one entry and
tombstones its directory, and a rename moves one entry.  The rest of each batch rewrites directory roots and the links
to them.
-/

namespace Skydriver

namespace Tree

/-- The statements at the end of a batch: new roots, and the links to them. -/
def rewrite (updates : List DirectoryUpdate) (links : List LinkUpdate) (tree : Tree) : Tree :=
  ⟨updateRoots updates tree.directories, links.foldl relink tree.entries⟩

section Rewrite

variable {tree : Tree} {updates : List DirectoryUpdate} {links : List LinkUpdate}

theorem shapeAt_rewrite (id : Identity) : (tree.rewrite updates links).shapeAt id = tree.shapeAt id :=
  updateRoots_shapeAt updates tree.directories _ tree.entries id

theorem rooted_of_rewrite (h : (tree.rewrite updates links).Rooted) : tree.Rooted := by
  refine h.of_parents ?_ ?_
  · intro id row hrow
    exact ⟨row, (shapeAt_rewrite id).symm.trans hrow, rfl, rfl⟩
  · intro id row hrow
    exact ⟨row, (shapeAt_rewrite id).trans hrow, rfl, rfl⟩

theorem linked_of_rewrite (h : (tree.rewrite updates links).Linked) : tree.Linked where
  child := by
    intro directoryId name child dataRoot revision hrow
    obtain ⟨⟨content, revision'⟩, hnew, hlinked⟩ := relinks_of_some links hrow
    obtain ⟨dataRoot', rfl⟩ := hlinked.directory rfl
    have hchild := h.child hnew
    simp only [shapeAt_rewrite] at hchild
    exact hchild
  entry := by
    intro id row parentId hrow hactive hparent
    obtain ⟨dataRoot, revision, hnew⟩ := h.entry ((shapeAt_rewrite id).trans hrow) hactive hparent
    obtain ⟨⟨content, revision'⟩, hold, hlinked⟩ := relinks_some hnew
    obtain ⟨dataRoot', rfl⟩ := hlinked.directory_old rfl
    exact ⟨dataRoot', revision', hold⟩

end Rewrite

theorem Settled.no_entry {prims : Primitives} {tree : Tree} (h : tree.Settled prims) {id : Identity}
    (hnone : tree.directories.lookup id = none) (name : Text) : tree.entries.lookup (id, name) = none := by
  rw [Option.eq_none_iff_forall_ne_some]
  intro row hrow
  obtain ⟨directory, hdirectory, _⟩ := h.housed hrow
  rw [hnone] at hdirectory
  cases hdirectory

end Tree

/-! ### Put -/

/-- The entry a put writes. -/
def putEdited (intent : PutIntentRow) (tree : Tree) : Tree :=
  { tree with
    entries := tree.entries.insert (intent.directoryId, intent.entryName)
      ⟨putContent intent, intent.expectedEntryRevision + 1⟩ }

theorem PutCommitted.tree_eq {batch : PutCommitBatch} {intent : PutIntentRow} {db after : Database}
    (h : PutCommitted batch intent db after) (hexist : VersionsExist db) :
    after.tree = (putEdited intent db.tree).rewrite batch.plan.directories
      (batch.plan.links.take batch.plan.directories.length) := by
  obtain ⟨_, _, entries, hentries, htree⟩ := putTree_eq_some h.tree
  obtain ⟨_, hversion, _⟩ := putObjects_eq_some h.objects
  rw [htree]
  cases hentries with
  | inserted hfresh _ _ _ =>
      rw [putEdited, hfresh]
      rfl
  | replaced _ _ _ => rfl
  | unchanged _ =>
      -- the published entry would be there already, and with it its version
      have hpublished := h.published
      simp only [putPublished, Bool.and_eq_true, beq_iff_eq] at hpublished
      have hafter := hpublished.1.1.2
      rw [htree] at hafter
      obtain ⟨old, hold, hrelinked⟩ := relinks_some hafter
      rw [← hrelinked.eq_of_file rfl] at hold
      obtain ⟨version, hfound⟩ := hexist _ _ _ _ _ _ _ hold rfl
      rw [hversion] at hfound
      cases hfound

/-! ### Mkdir -/

/-- The directory mkdir creates, and its entry. -/
def mkdirEdited (batch : MkdirBatch) (tree : Tree) : Tree where
  directories := tree.directories.insert batch.childDirectoryId (mkdirRow batch)
  entries := tree.entries.insert (batch.parentDirectoryId, batch.name)
    ⟨.directory batch.childDirectoryId batch.emptyRoot, 1⟩

theorem MkdirCommitted.tree_eq {batch : MkdirBatch} {db after : Database} (h : MkdirCommitted batch db after) :
    after.tree = (mkdirEdited batch db.tree).rewrite batch.plan.directories
      (batch.plan.links.take batch.plan.directories.length) := by
  obtain ⟨_, _, _, _, _, _, _, _, htree⟩ := mkdirTree_eq_some h.tree
  exact htree

/-! ### Removal -/

def removeEdited (batch : RemoveBatch) (tree : Tree) : Tree where
  directories := removedDirectories batch.entry.content tree.directories
  entries := tree.entries.erase (batch.directoryId, batch.name)

theorem RemoveCommitted.tree_eq {batch : RemoveBatch} {db after : Database} (h : RemoveCommitted batch db after)
    (hfound : db.tree.entries.lookup (batch.directoryId, batch.name) = some batch.entry)
    (hrevision : batch.entry.revision = batch.expectedEntryRevision) :
    after.tree = (removeEdited batch db.tree).rewrite batch.plan.directories
      (batch.plan.links.take batch.plan.directories.length) := by
  obtain ⟨_, _, htree⟩ := removeTree_eq_some h.tree
  rw [htree, Tree.deleteEntry, hfound]
  dsimp only
  rw [if_pos hrevision]
  rfl

theorem removedDirectories_lookup_ne {content : EntryContent} {directories : Table Identity DirectoryRow} {id : Identity}
    (hne : ∀ child dataRoot, content = .directory child dataRoot → id ≠ child) :
    (removedDirectories content directories).lookup id = directories.lookup id := by
  cases content with
  | file _ _ _ _ _ => rfl
  | directory child dataRoot => exact Table.lookup_modify_ne _ (hne child dataRoot rfl) _

theorem removedDirectories_lookup {content : EntryContent} {directories : Table Identity DirectoryRow} {id : Identity}
    {row : DirectoryRow} (hrow : (removedDirectories content directories).lookup id = some row) :
    ∃ old, directories.lookup id = some old ∧ row.dataRoot = old.dataRoot ∧ row.parentId = old.parentId ∧
      ((∀ child dataRoot, content = .directory child dataRoot → id ≠ child) → row = old) := by
  by_cases hne : ∀ child dataRoot, content = .directory child dataRoot → id ≠ child
  · rw [removedDirectories_lookup_ne hne] at hrow
    exact ⟨row, hrow, rfl, rfl, fun _ => rfl⟩
  · push Not at hne
    obtain ⟨child, dataRoot, rfl, rfl⟩ := hne
    rw [removedDirectories, Table.lookup_modify_self, Option.map_eq_some_iff] at hrow
    obtain ⟨old, hold, rfl⟩ := hrow
    refine ⟨old, hold, ?_, ?_, fun hne => absurd rfl (hne id dataRoot rfl)⟩
    · split_ifs
      · rfl
      · rfl
    · split_ifs
      · rfl
      · rfl

section Edited

variable {prims : Primitives} {filesystemId : Identity} {db after : Database} {updates : List DirectoryUpdate}
  {links : List LinkUpdate} {root : Digest}

theorem PutCommitted.edited {batch : PutCommitBatch} {intent : PutIntentRow} (h : PutCommitted batch intent db after)
    (hexist : VersionsExist db) (hsettled : db.tree.Settled prims) (hrooted : after.tree.Rooted)
    (hlinked : after.tree.Linked)
    (hclimb : Climb prims filesystemId (putEdit intent) db.tree.Reads intent.directoryId .direct updates links root) :
    db.tree.Edited prims (putEdit intent) intent.directoryId (putEdited intent db.tree) := by
  rw [h.tree_eq hexist] at hrooted hlinked
  have hlookup : ∀ key, (putEdited intent db.tree).entries.lookup key =
      if key = (intent.directoryId, intent.entryName) then some ⟨putContent intent, intent.expectedEntryRevision + 1⟩
      else db.tree.entries.lookup key := fun key => Table.lookup_insert_eq _ _ _ _
  constructor
  · exact Tree.rooted_of_rewrite hrooted
  · exact Tree.linked_of_rewrite hlinked
  · intro directoryId name row hrow
    rw [hlookup] at hrow
    split_ifs at hrow with hkey
    · cases hkey
      obtain ⟨update, hupdate, hid⟩ := List.mem_map.mp hclimb.start_mem
      obtain ⟨directory, hdirectory, hactive, _⟩ := hclimb.current hupdate
      exact ⟨directory, hid ▸ hdirectory, hactive⟩
    · exact hsettled.housed hrow
  · intro key child dataRoot revision row hentry hrow
    rw [hlookup] at hentry
    split_ifs at hentry
    · cases hentry
    · exact hsettled.childRoot hentry hrow
  · exact (congrArg (Option.map _) ((hlookup _).trans (if_pos rfl))).trans rfl
  · intro key hkey
    rw [hlookup, if_neg]
    exact hkey
  · intro id _
    rfl
  · intro id row hrow
    exact .inl hrow

theorem MkdirCommitted.edited {batch : MkdirBatch} (h : MkdirCommitted batch db after)
    (hempty : directoryMerkleRoot prims [] = .ok batch.emptyRoot) (hsettled : db.tree.Settled prims)
    (hrooted : after.tree.Rooted) (hlinked : after.tree.Linked)
    (hclimb : Climb prims filesystemId (newChildEdit batch.childDirectoryId batch.name batch.emptyRoot) db.tree.Reads
      batch.parentDirectoryId .direct updates links root) :
    db.tree.Edited prims (newChildEdit batch.childDirectoryId batch.name batch.emptyRoot) batch.parentDirectoryId
      (mkdirEdited batch db.tree) := by
  obtain ⟨_, _, hfresh, hne, _, _, _, hsubject, _⟩ := mkdirTree_eq_some h.tree
  rw [h.tree_eq] at hrooted hlinked
  have hlookup : ∀ key, (mkdirEdited batch db.tree).entries.lookup key =
      if key = (batch.parentDirectoryId, batch.name) then some ⟨.directory batch.childDirectoryId batch.emptyRoot, 1⟩
      else db.tree.entries.lookup key := fun key => Table.lookup_insert_eq _ _ _ _
  have hdirectory : ∀ id, (mkdirEdited batch db.tree).directories.lookup id =
      if id = batch.childDirectoryId then some (mkdirRow batch) else db.tree.directories.lookup id := fun id =>
    Table.lookup_insert_eq _ _ _ _
  have hold : ∀ {id row}, db.tree.directories.lookup id = some row → id ≠ batch.childDirectoryId := by
    intro id row hrow heq
    rw [heq, hfresh] at hrow
    cases hrow
  constructor
  · exact Tree.rooted_of_rewrite hrooted
  · exact Tree.linked_of_rewrite hlinked
  · intro directoryId name row hrow
    rw [hlookup] at hrow
    have hfound : ∃ directory, db.tree.directories.lookup directoryId = some directory ∧ directory.state = .active := by
      split_ifs at hrow with hkey
      · cases hkey
        obtain ⟨update, hupdate, hid⟩ := List.mem_map.mp hclimb.start_mem
        obtain ⟨directory, hdirectory, hactive, _⟩ := hclimb.current hupdate
        exact ⟨directory, hid ▸ hdirectory, hactive⟩
      · exact hsettled.housed hrow
    obtain ⟨directory, hfound, hactive⟩ := hfound
    exact ⟨directory, by rw [hdirectory, if_neg (hold hfound), hfound], hactive⟩
  · intro key child dataRoot revision row hentry hrow
    rw [hlookup] at hentry
    rw [hdirectory] at hrow
    split_ifs at hentry with hkey
    · cases hentry
      rw [if_pos rfl] at hrow
      cases hrow
      rfl
    · have hchild : child ≠ batch.childDirectoryId := by
        intro heq
        have hother := hsubject _ _ hentry
        rw [heq] at hother
        exact absurd (beq_self_eq_true batch.childDirectoryId) (by rw [show (batch.childDirectoryId == _) = _ from hother]; simp)
      rw [if_neg hchild] at hrow
      exact hsettled.childRoot hentry hrow
  · exact (congrArg (Option.map _) ((hlookup _).trans (if_pos rfl))).trans rfl
  · intro key hkey
    rw [hlookup, if_neg]
    exact hkey
  · intro id hmem
    obtain ⟨update, hupdate, rfl⟩ := List.mem_map.mp (hclimb.mem_ancestors.mp hmem)
    obtain ⟨row, hrow, _⟩ := hclimb.current hupdate
    rw [hdirectory, if_neg (hold hrow)]
  · intro id row hrow
    rw [hdirectory] at hrow
    split_ifs at hrow with hid
    · cases hrow
      refine .inr ⟨hempty, fun name => ?_, rfl⟩
      rw [hlookup, if_neg, hid]
      · exact hsettled.no_entry hfresh name
      · intro heq
        exact hne ((Prod.mk.inj heq).1.symm.trans hid)
    · exact .inl hrow

theorem RemoveCommitted.edited {batch : RemoveBatch} (h : RemoveCommitted batch db after)
    (hfound : db.tree.entries.lookup (batch.directoryId, batch.name) = some batch.entry)
    (hrevision : batch.entry.revision = batch.expectedEntryRevision) (hsettled : db.tree.Settled prims)
    (hrooted : after.tree.Rooted) (hlinked : after.tree.Linked)
    (hclimb : Climb prims filesystemId (removalEdit batch.name batch.expectedEntryRevision) db.tree.Reads
      batch.directoryId .direct updates links root) :
    db.tree.Edited prims (removalEdit batch.name batch.expectedEntryRevision) batch.directoryId
      (removeEdited batch db.tree) := by
  have hproof := (removeTree_eq_some h.tree).2.1
  rw [h.tree_eq hfound hrevision] at hrooted hlinked hproof
  have hlookup : ∀ key, (removeEdited batch db.tree).entries.lookup key =
      if key = (batch.directoryId, batch.name) then none else db.tree.entries.lookup key := fun key =>
    Table.lookup_erase_eq _ _ _
  -- the removed directory hangs below the edited one and is empty
  have hchild : ∀ {child dataRoot}, batch.entry.content = .directory child dataRoot →
      (∃ row, db.tree.directories.lookup child = some row ∧ row.parentId = some batch.directoryId) ∧
        ∀ name, db.tree.entries.lookup (child, name) = none := by
    intro child dataRoot hcontent
    have hentry : db.tree.entries.lookup (batch.directoryId, batch.name) =
        some ⟨.directory child dataRoot, batch.entry.revision⟩ := by rw [hfound, ← hcontent]
    obtain ⟨shape, hshape, hparent, _⟩ := hsettled.linked.child hentry
    obtain ⟨row, hrow, rfl⟩ := lookup_of_shapeAt hshape
    refine ⟨⟨row, hrow, hparent⟩, fun name => ?_⟩
    rw [Option.eq_none_iff_forall_ne_some]
    intro below hbelow
    have hne : (child, name) ≠ (batch.directoryId, batch.name) := by
      intro heq
      rw [(Prod.mk.inj heq).1] at hrow
      exact hclimb.not_mem_of_parent hrow hparent hclimb.start_mem
    have hkept := (hlookup (child, name)).trans ((if_neg hne).trans hbelow)
    obtain ⟨kept, hafter, _⟩ := relinks_of_some (batch.plan.links.take batch.plan.directories.length) hkept
    simp only [removeProofApplied, hcontent, Bool.and_eq_true, Bool.not_eq_true', Table.any_eq_false] at hproof
    have hempty := hproof.2.2 _ _ hafter
    exact absurd hempty (by simp)
  have hoff : ∀ {id}, id ∈ db.tree.ancestors batch.directoryId →
      ∀ child dataRoot, batch.entry.content = .directory child dataRoot → id ≠ child := by
    intro id hmem child dataRoot hcontent heq
    obtain ⟨⟨row, hrow, hparent⟩, _⟩ := hchild hcontent
    rw [heq] at hmem
    exact hclimb.not_mem_of_parent hrow hparent (hclimb.mem_ancestors.mp hmem)
  constructor
  · exact Tree.rooted_of_rewrite hrooted
  · exact Tree.linked_of_rewrite hlinked
  · intro directoryId name row hrow
    rw [hlookup] at hrow
    split_ifs at hrow with hkey
    obtain ⟨directory, hdirectory, hactive⟩ := hsettled.housed hrow
    refine ⟨directory, ?_, hactive⟩
    rw [← hdirectory]
    refine removedDirectories_lookup_ne fun child dataRoot hcontent heq => ?_
    rw [heq, (hchild hcontent).2] at hrow
    cases hrow
  · intro key child dataRoot revision row hentry hrow
    rw [hlookup] at hentry
    split_ifs at hentry
    obtain ⟨old, hold, hroot, _⟩ := removedDirectories_lookup hrow
    rw [hroot]
    exact hsettled.childRoot hentry hold
  · exact congrArg (Option.map _) ((hlookup _).trans (if_pos rfl))
  · intro key hkey
    rw [hlookup, if_neg]
    exact hkey
  · intro id hmem
    exact removedDirectories_lookup_ne (hoff hmem)
  · intro id row hrow
    obtain ⟨old, hold, hroot, hsameParent, hsame⟩ := removedDirectories_lookup hrow
    by_cases hne : ∀ child dataRoot, batch.entry.content = .directory child dataRoot → id ≠ child
    · exact .inl (hsame hne ▸ hold)
    · push Not at hne
      obtain ⟨child, dataRoot, hcontent, rfl⟩ := hne
      have hnone := (hchild hcontent).2
      obtain ⟨below, hbelow, hparent⟩ := (hchild hcontent).1
      refine .inr ⟨?_, fun name => ?_, ?_⟩
      · rw [hroot, ← hsettled.root hold, Tree.listing_eq_nil fun name found hrow' => by rw [hnone] at hrow'; cases hrow']
      · rw [hlookup]
        split_ifs
        · rfl
        · exact hnone name
      · rw [hold] at hbelow
        cases hbelow
        rw [hsameParent, hparent]
        rfl

/-! ### After the batch -/

/-- A batch edits the tree and recomputes its roots, up to a new root of its filesystem, and changes no directory under
its revision. -/
structure Tree.Carried (prims : Primitives) (filesystemId : Identity) (root : Digest) (tree edited after : Tree) :
    Prop where
  same : after.SameRows (edited.recomputed prims)
  settled : after.Settled prims
  pinned : tree.Pinned after
  rerooted : tree.Rerooted filesystemId root after

theorem Rewriting.recomputed_entries {edited : Tree} (h : Rewriting prims edited updates links) {id : Identity}
    (hchild : ∀ {name child dataRoot revision},
      edited.entries.lookup (id, name) = some ⟨.directory child dataRoot, revision⟩ →
        child ∉ updates.map DirectoryUpdate.directoryId) (name : Text) :
    (edited.recomputed prims).entries.lookup (id, name) = edited.entries.lookup (id, name) := by
  cases hentry : edited.entries.lookup (id, name) with
  | none => rw [Tree.recomputed, Table.lookup_mapRows, hentry, Option.map_none]
  | some entry =>
      obtain ⟨content, revision⟩ := entry
      cases content with
      | file _ _ _ _ _ => exact Rewriting.recomputed_file hentry rfl
      | directory child dataRoot =>
          obtain ⟨row, hrow, _, _, hroot⟩ := h.child hentry
          rw [h.recomputed_directory hentry, Rewriting.rootAfter_of_not_mem hrow (hchild hentry), hroot,
            Tree.withChildRoot]
          dsimp only
          rw [if_pos rfl]

theorem Rewriting.not_updated {edited : Tree} (h : Rewriting prims edited updates links) {id : Identity}
    {row : DirectoryRow} (hrow : edited.directories.lookup id = some row)
    (hafter : (edited.recomputed prims).directories.lookup id = some row) :
    id ∉ updates.map DirectoryUpdate.directoryId := by
  intro hmem
  obtain ⟨update, hupdate, rfl⟩ := List.mem_map.mp hmem
  obtain ⟨found, hfound, hactive, _, _, hne⟩ := h.current hupdate
  rw [hrow] at hfound
  cases hfound
  rw [h.recomputed_row hrow, if_pos hactive, h.rootAfter_of_update hupdate, Tree.withRoot, if_neg hne,
    Option.some.injEq] at hafter
  have hrevision := congrArg DirectoryRow.revision hafter
  exact absurd hrevision (Nat.succ_ne_self _)

theorem Climb.carried {edit : DirectEdit} {start : Identity} {tree edited after : Tree}
    (h : Climb prims filesystemId edit tree.Reads start .direct updates links root)
    (hedited : tree.Edited prims edit start edited) (hsettled : tree.Settled prims)
    (hafter : after = edited.rewrite updates (links.take updates.length))
    (hadvance : RowsAdvance tree.directories after.directories) : tree.Carried prims filesystemId root edited after := by
  have hlength := h.linked_parents.length_le
  rw [List.length_map, List.length_map] at hlength
  rw [List.take_of_length_le hlength] at hafter
  have hrewriting := h.rewriting hedited hsettled
  have hsame : after.SameRows (edited.recomputed prims) := hafter ▸ hrewriting.sameRows
  have hrerooted : tree.Rerooted filesystemId root after := by
    apply hrewriting.rerooted hsame
    · intro id row hrow hparent
      rcases hedited.rows hrow with hold | ⟨_, _, hchild⟩
      · exact hold
      · rw [hparent] at hchild
        cases hchild
    · intro update row hmem hrow
      rw [h.edited_row hedited (List.mem_map_of_mem hmem)] at hrow
      obtain ⟨chain, hchain, hids⟩ := h.chain
      have hid : update.directoryId ∈ chain.map Prod.fst := hids ▸ List.mem_map_of_mem hmem
      obtain ⟨loaded, hloaded, heq⟩ := List.mem_map.mp hid
      obtain ⟨hfound, hbelongs, _⟩ := hchain.row hloaded
      rw [heq, hrow, Option.some.injEq] at hfound
      rw [hfound]
      exact hbelongs
    · obtain ⟨update, hmem, hroot, row, hrow, hlast⟩ := h.ends
      exact ⟨update, hmem, hroot, row, (h.edited_row hedited (List.mem_map_of_mem hmem)).trans hrow, hlast⟩
  refine ⟨hsame, hsame.settled hrewriting.settled, ⟨hadvance, ?_⟩, hrerooted⟩
  intro id row hrow hlast name
  have hnot : id ∉ updates.map DirectoryUpdate.directoryId := by
    intro hmem
    have hkept := h.edited_row hedited hmem
    exact hrewriting.not_updated (hkept.trans hrow) ((hsame.directories id).symm.trans hlast) hmem
  have hstart : id ≠ start := fun heq => hnot (heq ▸ h.start_mem)
  rw [hsame.entries, hrewriting.recomputed_entries, hedited.kept fun heq => hstart (Prod.mk.inj heq).1]
  intro found child dataRoot revision hentry hmem
  obtain ⟨below, hbelow, hparent, _⟩ := Climb.edited_child hedited hentry
  rw [h.edited_row hedited hmem] at hbelow
  exact hnot (h.parent_mem hmem hbelow hparent)

end Edited

end Skydriver
