import Skydriver.Control.Climb

/-!
# What a chain plan does

Put, mkdir and removal rewrite one chain of ancestors.  Computed from a state in which rows, entries and roots agree,
the plan of such a chain takes the edited tree to the same tree with every directory root computed anew: each level is
the root of its edited listing, and each link carries the new root of the level below.
-/

namespace Skydriver

namespace Tree

theorem find_storedEntries (tree : Tree) (id : Identity) (name : Text) :
    ((tree.storedEntries id).find? fun stored => entryName stored.entry == name) =
      (tree.entries.lookup (id, name)).map fun row => ⟨row.content.merkle name, row.revision⟩ := by
  cases hfind : (tree.storedEntries id).find? fun stored => entryName stored.entry == name with
  | none =>
      rw [List.find?_eq_none] at hfind
      cases hrow : tree.entries.lookup (id, name) with
      | none => rfl
      | some row =>
          have hmem := mem_storedEntries.mpr ⟨name, row, hrow, rfl⟩
          exact absurd (by rw [entryName_merkle, beq_self_eq_true]) (hfind _ hmem)
  | some stored =>
      obtain ⟨found, row, hrow, rfl⟩ := mem_storedEntries.mp (List.mem_of_find?_eq_some hfind)
      have hname := List.find?_some hfind
      rw [entryName_merkle, beq_iff_eq] at hname
      rw [← hname, hrow, Option.map_some]

def listedBut (tree : Tree) (id : Identity) (name : Text) : List DirectoryMerkleEntry :=
  ((tree.storedEntries id).filter fun candidate => entryName candidate.entry != name).map StoredEntry.entry

theorem mem_listedBut {tree : Tree} {id : Identity} {name : Text} {listed : DirectoryMerkleEntry} :
    listed ∈ tree.listedBut id name ↔
      ∃ found row, tree.entries.lookup (id, found) = some row ∧ found ≠ name ∧ listed = row.content.merkle found := by
  rw [listedBut, List.mem_map]
  constructor
  · intro h
    obtain ⟨stored, hstored, rfl⟩ := h
    obtain ⟨hmem, hname⟩ := List.mem_filter.mp hstored
    obtain ⟨found, row, hrow, rfl⟩ := mem_storedEntries.mp hmem
    rw [entryName_merkle, bne_iff_ne] at hname
    exact ⟨found, row, hrow, hname, rfl⟩
  · intro h
    obtain ⟨found, row, hrow, hname, rfl⟩ := h
    refine ⟨_, List.mem_filter.mpr ⟨mem_storedEntries.mpr ⟨found, row, hrow, rfl⟩, ?_⟩, rfl⟩
    rw [entryName_merkle, bne_iff_ne]
    exact hname

end Tree

/-! ### Listings of the levels -/

theorem editEntries_direct {edit : DirectEdit} {tree : Tree} {id : Identity} {entries : List DirectoryMerkleEntry}
    {link : List LinkUpdate} : editEntries edit .direct id (tree.storedEntries id) = some (entries, link) ↔
      edit.accepts ((tree.entries.lookup (id, edit.name)).map fun row => ⟨row.content.merkle edit.name, row.revision⟩) =
          true ∧
        entries = tree.listedBut id edit.name ++ edit.replacement.toList ∧ link = [] := by
  rw [← tree.find_storedEntries]
  simp only [editEntries, Replacement.target, Tree.listedBut]
  split_ifs with haccepts
  · simp only [haccepts, ↓reduceIte, Option.some.injEq, Prod.mk.injEq, true_and]
    exact and_congr eq_comm eq_comm
  · simp [haccepts]

theorem editEntries_child {edit : DirectEdit} {tree : Tree} {id child : Identity} {name : Text} {root : Digest}
    {entries : List DirectoryMerkleEntry} {link : List LinkUpdate} :
    editEntries edit (.child child name root) id (tree.storedEntries id) = some (entries, link) ↔
      ∃ dataRoot revision, tree.entries.lookup (id, name) = some ⟨.directory child dataRoot, revision⟩ ∧
        entries = tree.listedBut id name ++ [.directory name child root] ∧
          link = [⟨id, child, name, revision, root⟩] := by
  simp only [editEntries, Replacement.target, tree.find_storedEntries]
  cases hrow : tree.entries.lookup (id, name) with
  | none => simp
  | some row =>
      obtain ⟨content, revision⟩ := row
      cases content with
      | file _ _ _ _ _ => simp [EntryContent.merkle]
      | directory found dataRoot =>
          simp only [Option.map_some, EntryContent.merkle, Option.ite_none_right_eq_some, Option.some.injEq,
            Prod.mk.injEq, EntryRow.mk.injEq, EntryContent.directory.injEq]
          constructor
          · intro h
            obtain ⟨rfl, hentries, hlink⟩ := h
            exact ⟨dataRoot, revision, ⟨⟨rfl, rfl⟩, rfl⟩, hentries.symm, hlink.symm⟩
          · intro h
            obtain ⟨_, _, ⟨⟨rfl, rfl⟩, rfl⟩, hentries, hlink⟩ := h
            exact ⟨rfl, hentries.symm, hlink.symm⟩

/-! ### The levels of a plan, one by one -/

/-- A level of a chain plan over the tree it was computed from: the edited directory itself, or the parent of a
directory that the plan rewrites. -/
inductive Level (prims : Primitives) (edit : DirectEdit) (tree : Tree) (start : Identity) (replacement : Replacement)
    (updates : List DirectoryUpdate) : DirectoryUpdate → List LinkUpdate → Prop where
  | first {update : DirectoryUpdate} {row : DirectoryRow} {link : List LinkUpdate} (hmem : update ∈ updates)
      (hrow : tree.directories.lookup start = some row)
      (hplan : planLevel prims edit replacement start row (tree.storedEntries start) = .ok (update, link)) :
      Level prims edit tree start replacement updates update link
  | above {below update : DirectoryUpdate} {lower row : DirectoryRow} {link : List LinkUpdate} (hbelow : below ∈ updates)
      (hmem : update ∈ updates) (hlower : tree.directories.lookup below.directoryId = some lower)
      (hparent : lower.parentId = some update.directoryId)
      (hrow : tree.directories.lookup update.directoryId = some row)
      (hplan : planLevel prims edit (.child below.directoryId lower.name below.newRoot) update.directoryId row
        (tree.storedEntries update.directoryId) = .ok (update, link)) :
      Level prims edit tree start replacement updates update link

theorem planLevel_directoryId {prims : Primitives} {edit : DirectEdit} {replacement : Replacement} {id : Identity}
    {row : DirectoryRow} {stored : List StoredEntry} {update : DirectoryUpdate} {link : List LinkUpdate}
    (h : planLevel prims edit replacement id row stored = .ok (update, link)) : update.directoryId = id := by
  obtain ⟨_, _, _, _, _, rfl⟩ := planLevel_eq_ok.mp h
  rfl

section Levels

variable {prims : Primitives} {filesystemId : Identity} {edit : DirectEdit} {tree : Tree} {start : Identity}
  {replacement : Replacement} {updates : List DirectoryUpdate} {links : List LinkUpdate} {root : Digest}

theorem Level.cons {parentId : Identity} {row : DirectoryRow} {first update : DirectoryUpdate} {link : List LinkUpdate}
    (hrow : tree.directories.lookup first.directoryId = some row) (hparent : row.parentId = some parentId)
    (h : Level prims edit tree parentId (.child first.directoryId row.name first.newRoot) updates update link) :
    Level prims edit tree start replacement (first :: updates) update link := by
  cases h with
  | first hmem habove hplan =>
      have hid := planLevel_directoryId hplan
      subst hid
      exact .above List.mem_cons_self (List.mem_cons_of_mem _ hmem) hrow hparent habove hplan
  | above hbelow hmem hlower hup habove hplan =>
      exact .above (List.mem_cons_of_mem _ hbelow) (List.mem_cons_of_mem _ hmem) hlower hup habove hplan

namespace Climb

theorem chain (h : Climb prims filesystemId edit tree.Reads start replacement updates links root) :
    ∃ chain, AncestorChain tree filesystemId start chain ∧
      chain.map Prod.fst = updates.map DirectoryUpdate.directoryId := by
  induction h with
  | top hread hfilesystem hactive _ hlevel hparent =>
      exact ⟨_, .top hread.1 hfilesystem hactive hparent, by
        rw [List.map_singleton, List.map_singleton, planLevel_directoryId hlevel]⟩
  | up hread hfilesystem hactive _ hlevel hparent _ ih =>
      obtain ⟨rest, hrest, hsame⟩ := ih
      exact ⟨_, .up hread.1 hfilesystem hactive hparent hrest, by
        rw [List.map_cons, List.map_cons, hsame, planLevel_directoryId hlevel]⟩

theorem ends (h : Climb prims filesystemId edit tree.Reads start replacement updates links root) :
    ∃ update ∈ updates, update.newRoot = root ∧ ∃ row, tree.directories.lookup update.directoryId = some row ∧
      row.parentId = none ∧ row.filesystemId = filesystemId := by
  induction h with
  | top hread hfilesystem _ _ hlevel hparent =>
      refine ⟨_, List.mem_singleton_self _, rfl, _, ?_, hparent, hfilesystem⟩
      rw [planLevel_directoryId hlevel]
      exact hread.1
  | up _ _ _ _ _ _ _ ih =>
      obtain ⟨update, hmem, hlast⟩ := ih
      exact ⟨update, List.mem_cons_of_mem _ hmem, hlast⟩

theorem level (h : Climb prims filesystemId edit tree.Reads start replacement updates links root)
    {update : DirectoryUpdate} (hmem : update ∈ updates) :
    ∃ link, Level prims edit tree start replacement updates update link ∧ ∀ found ∈ link, found ∈ links := by
  induction h generalizing update with
  | top hread _ _ _ hlevel _ =>
      obtain ⟨hrow, rfl⟩ := hread
      rw [List.mem_singleton] at hmem
      subst hmem
      exact ⟨_, .first (List.mem_singleton_self _) hrow hlevel, fun _ hfound => hfound⟩
  | up hread _ _ _ hlevel hparent _ ih =>
      obtain ⟨hrow, rfl⟩ := hread
      rcases List.mem_cons.mp hmem with rfl | hrest
      · exact ⟨_, .first List.mem_cons_self hrow hlevel, fun _ hfound => List.mem_append_left _ hfound⟩
      · obtain ⟨link, hlink, hfound⟩ := ih hrest
        have hid := planLevel_directoryId hlevel
        subst hid
        exact ⟨link, hlink.cons hrow hparent, fun _ hmem => List.mem_append_right _ (hfound _ hmem)⟩

theorem link (h : Climb prims filesystemId edit tree.Reads start replacement updates links root)
    {found : LinkUpdate} (hmem : found ∈ links) :
    ∃ update link, Level prims edit tree start replacement updates update link ∧ found ∈ link := by
  induction h with
  | top hread _ _ _ hlevel _ =>
      obtain ⟨hrow, rfl⟩ := hread
      exact ⟨_, _, .first (List.mem_singleton_self _) hrow hlevel, hmem⟩
  | up hread _ _ _ hlevel hparent _ ih =>
      obtain ⟨hrow, rfl⟩ := hread
      rcases List.mem_append.mp hmem with hfirst | hrest
      · exact ⟨_, _, .first List.mem_cons_self hrow hlevel, hfirst⟩
      · obtain ⟨update, link, hlink, hfound⟩ := ih hrest
        have hid := planLevel_directoryId hlevel
        subst hid
        exact ⟨update, link, hlink.cons hrow hparent, hfound⟩

theorem planLevel_links {stored : List StoredEntry} {id : Identity} {row : DirectoryRow} {update : DirectoryUpdate}
    {link : List LinkUpdate} (h : planLevel prims edit replacement id row stored = .ok (update, link)) :
    (link.map LinkUpdate.parentDirectoryId).Sublist [update.directoryId] := by
  obtain ⟨_, _, hedit, _, _, rfl⟩ := planLevel_eq_ok.mp h
  cases replacement with
  | direct =>
      simp only [editEntries, Option.ite_none_right_eq_some, Option.some.injEq, Prod.mk.injEq] at hedit
      rw [← hedit.2.2]
      exact List.nil_sublist _
  | child child name root =>
      simp only [editEntries] at hedit
      split at hedit
      · split_ifs at hedit
        cases hedit
        exact List.Sublist.refl _
      · cases hedit

theorem linked_parents (h : Climb prims filesystemId edit tree.Reads start replacement updates links root) :
    (links.map LinkUpdate.parentDirectoryId).Sublist (updates.map DirectoryUpdate.directoryId) := by
  induction h with
  | top _ _ _ _ hplan _ => exact planLevel_links hplan
  | up _ _ _ _ hplan _ _ ih =>
      rw [List.map_append, List.map_cons, ← List.singleton_append]
      exact (planLevel_links hplan).append ih

end Climb

end Levels

/-! ### The edited tree -/

/-- What the statements of a put, mkdir or removal make of a tree before they rewrite its roots. -/
structure Tree.Edited (prims : Primitives) (edit : DirectEdit) (start : Identity) (tree edited : Tree) : Prop where
  rooted : edited.Rooted
  linked : edited.Linked
  housed : ∀ {directoryId name row}, edited.entries.lookup (directoryId, name) = some row →
    ∃ directory, edited.directories.lookup directoryId = some directory ∧ directory.state = .active
  childRoot : ∀ {key child dataRoot revision row}, edited.entries.lookup key = some ⟨.directory child dataRoot, revision⟩ →
    edited.directories.lookup child = some row → row.dataRoot = dataRoot
  written : (edited.entries.lookup (start, edit.name)).map (fun row => row.content.merkle edit.name) = edit.replacement
  kept : ∀ {key}, key ≠ (start, edit.name) → edited.entries.lookup key = tree.entries.lookup key
  above : ∀ {id}, id ∈ tree.ancestors start → edited.directories.lookup id = tree.directories.lookup id
  rows : ∀ {id row}, edited.directories.lookup id = some row → tree.directories.lookup id = some row ∨
    (directoryMerkleRoot prims [] = .ok row.dataRoot ∧ (∀ name, edited.entries.lookup (id, name) = none) ∧
      row.parentId.isSome)

theorem AncestorChain.eq_of_depth {tree : Tree} {filesystemId start : Identity} {chain : List LoadedDirectory}
    (h : AncestorChain tree filesystemId start chain) {id other : Identity} (hid : id ∈ chain.map Prod.fst)
    (hother : other ∈ chain.map Prod.fst) {rows : Nat} (hdepth : tree.Depth id rows) (hdepth' : tree.Depth other rows) :
    id = other := by
  have hplace := List.idxOf_lt_length_of_mem hid
  have hplace' := List.idxOf_lt_length_of_mem hother
  rw [List.length_map] at hplace hplace'
  obtain ⟨loaded, hloaded, rfl⟩ := List.mem_map.mp hid
  obtain ⟨loaded', hloaded', rfl⟩ := List.mem_map.mp hother
  have hrows := hdepth.functional (h.depthIn hloaded)
  have hrows' := hdepth'.functional (h.depthIn hloaded')
  rw [Skydriver.depthIn] at hrows hrows'
  exact (List.idxOf_inj hid).mp (by omega)

section Rewritten

variable {prims : Primitives} {filesystemId : Identity} {edit : DirectEdit} {tree edited : Tree} {start : Identity}
  {updates : List DirectoryUpdate} {links : List LinkUpdate} {root : Digest}
  (h : Climb prims filesystemId edit tree.Reads start .direct updates links root)
include h

namespace Climb

theorem mem_ancestors {id : Identity} : id ∈ tree.ancestors start ↔ id ∈ updates.map DirectoryUpdate.directoryId := by
  obtain ⟨chain, hchain, hsame⟩ := h.chain
  rw [hchain.mem_ancestors, hsame]

theorem start_mem : start ∈ updates.map DirectoryUpdate.directoryId := by
  obtain ⟨chain, hchain, hsame⟩ := h.chain
  obtain ⟨row, hrow⟩ := hchain.head
  rw [← hsame]
  exact List.mem_map_of_mem hrow

theorem nodup : (updates.map DirectoryUpdate.directoryId).Nodup := by
  obtain ⟨chain, hchain, hsame⟩ := h.chain
  rw [← hsame]
  exact hchain.nodup

theorem parent_mem {id parentId : Identity} {row : DirectoryRow} (hmem : id ∈ updates.map DirectoryUpdate.directoryId)
    (hrow : tree.directories.lookup id = some row) (hparent : row.parentId = some parentId) :
    parentId ∈ updates.map DirectoryUpdate.directoryId := by
  obtain ⟨chain, hchain, hsame⟩ := h.chain
  rw [← hsame] at hmem ⊢
  obtain ⟨loaded, hloaded, rfl⟩ := List.mem_map.mp hmem
  obtain ⟨hfound, _, _⟩ := hchain.row hloaded
  rw [hrow] at hfound
  cases hfound
  obtain ⟨above, habove⟩ := hchain.parent hloaded hparent
  exact List.mem_map_of_mem habove

theorem not_mem_of_parent {id : Identity} {row : DirectoryRow} (hrow : tree.directories.lookup id = some row)
    (hparent : row.parentId = some start) : id ∉ updates.map DirectoryUpdate.directoryId := by
  intro hmem
  obtain ⟨chain, hchain, hsame⟩ := h.chain
  rw [← hsame] at hmem
  obtain ⟨loaded, hloaded, rfl⟩ := List.mem_map.mp hmem
  have hle := hchain.depth_le hloaded (.up hrow hparent hchain.depth)
  omega

theorem eq_of_parent {id other parentId : Identity} {row row' : DirectoryRow}
    (hid : id ∈ updates.map DirectoryUpdate.directoryId) (hother : other ∈ updates.map DirectoryUpdate.directoryId)
    (hrow : tree.directories.lookup id = some row) (hrow' : tree.directories.lookup other = some row')
    (hparent : row.parentId = some parentId) (hparent' : row'.parentId = some parentId) : id = other := by
  have habove := h.parent_mem hid hrow hparent
  obtain ⟨chain, hchain, hsame⟩ := h.chain
  rw [← hsame] at hid hother habove
  obtain ⟨above, hmem, rfl⟩ := List.mem_map.mp habove
  exact hchain.eq_of_depth hid hother (.up hrow hparent (hchain.depthIn hmem))
    (.up hrow' hparent' (hchain.depthIn hmem))

theorem current {update : DirectoryUpdate} (hmem : update ∈ updates) :
    ∃ row, tree.directories.lookup update.directoryId = some row ∧ row.state = .active ∧
      row.revision = update.expectedRevision ∧ row.dataRoot = update.expectedRoot ∧ update.newRoot ≠ row.dataRoot := by
  obtain ⟨chain, hchain, hsame⟩ := h.chain
  have hid : update.directoryId ∈ chain.map Prod.fst := hsame ▸ List.mem_map_of_mem hmem
  obtain ⟨loaded, hloaded, heq⟩ := List.mem_map.mp hid
  obtain ⟨hfound, _, hactive⟩ := hchain.row hloaded
  rw [heq] at hfound
  refine ⟨loaded.2, hfound, hactive, ?_⟩
  obtain ⟨link, hlevel, _⟩ := h.level hmem
  cases hlevel with
  | first _ hrow hplan =>
      have hstart := planLevel_directoryId hplan
      obtain ⟨_, _, _, _, hne, rfl⟩ := planLevel_eq_ok.mp hplan
      rw [hfound] at hrow
      cases hrow
      exact ⟨rfl, rfl, hne⟩
  | above _ _ _ _ hrow hplan =>
      obtain ⟨_, _, _, _, hne, hupdate⟩ := planLevel_eq_ok.mp hplan
      rw [hfound] at hrow
      cases hrow
      rw [hupdate]
      exact ⟨rfl, rfl, hne⟩

variable (hedited : tree.Edited prims edit start edited)
include hedited

theorem edited_row {id : Identity} (hmem : id ∈ updates.map DirectoryUpdate.directoryId) :
    edited.directories.lookup id = tree.directories.lookup id :=
  hedited.above (h.mem_ancestors.mpr hmem)

omit h in
theorem edited_child {directoryId child : Identity} {name : Text} {dataRoot : Digest} {revision : Nat}
    (hentry : edited.entries.lookup (directoryId, name) = some ⟨.directory child dataRoot, revision⟩) :
    ∃ row, edited.directories.lookup child = some row ∧ row.parentId = some directoryId ∧ row.name = name ∧
      row.dataRoot = dataRoot := by
  obtain ⟨shape, hshape, hparent, hname, _⟩ := hedited.linked.child hentry
  obtain ⟨row, hrow, rfl⟩ := lookup_of_shapeAt hshape
  exact ⟨row, hrow, hparent, hname, hedited.childRoot hentry hrow⟩

/-- The directory that holds the entry of an updated directory is not the edited one. -/
theorem ne_start {directoryId child : Identity} {name : Text} {dataRoot : Digest} {revision : Nat}
    (hentry : edited.entries.lookup (directoryId, name) = some ⟨.directory child dataRoot, revision⟩)
    (hmem : child ∈ updates.map DirectoryUpdate.directoryId) : directoryId ≠ start := by
  intro heq
  obtain ⟨row, hrow, hparent, _⟩ := edited_child hedited hentry
  rw [h.edited_row hedited hmem] at hrow
  exact h.not_mem_of_parent hrow (heq ▸ hparent) hmem

omit h in
theorem relist_eq {directoryId : Identity} {name : Text} {row : EntryRow}
    (hentry : edited.entries.lookup (directoryId, name) = some row)
    (hchild : ∀ child dataRoot, row.content = .directory child dataRoot →
      child ∉ updates.map DirectoryUpdate.directoryId) :
    Tree.relist (edited.rootAfter updates) (row.content.merkle name) = row.content.merkle name := by
  obtain ⟨content, revision⟩ := row
  cases content with
  | file _ _ _ _ _ => rfl
  | directory child dataRoot =>
      obtain ⟨below, hbelow, _, _, hroot⟩ := edited_child hedited hentry
      rw [EntryContent.merkle, Tree.relist, Rewriting.rootAfter_of_not_mem hbelow (hchild child dataRoot rfl), hroot]

omit h hedited in
theorem mem_relisted {rootOf : Identity → Digest} {id : Identity} {listed : DirectoryMerkleEntry} :
    listed ∈ (edited.listing id).map (Tree.relist rootOf) ↔ ∃ name row, edited.entries.lookup (id, name) = some row ∧
      listed = Tree.relist rootOf (row.content.merkle name) := by
  rw [List.mem_map]
  constructor
  · intro hlisted
    obtain ⟨found, hfound, rfl⟩ := hlisted
    obtain ⟨name, row, hrow, rfl⟩ := Tree.mem_listing.mp hfound
    exact ⟨name, row, hrow, rfl⟩
  · intro hlisted
    obtain ⟨name, row, hrow, rfl⟩ := hlisted
    exact ⟨_, Tree.mem_listing.mpr ⟨name, row, hrow, rfl⟩, rfl⟩

/-- The edited directory lists the entry that the edit leaves, and what it listed under other names. -/
theorem relisted_start {listed : DirectoryMerkleEntry} :
    listed ∈ (edited.listing start).map (Tree.relist (edited.rootAfter updates)) ↔
      listed ∈ tree.listedBut start edit.name ++ edit.replacement.toList := by
  have hsame : ∀ {name row}, edited.entries.lookup (start, name) = some row →
      Tree.relist (edited.rootAfter updates) (row.content.merkle name) = row.content.merkle name := by
    intro name row hrow
    apply relist_eq hedited hrow
    intro child dataRoot hcontent hmem
    obtain ⟨content, revision⟩ := row
    subst hcontent
    exact h.ne_start hedited hrow hmem rfl
  rw [mem_relisted, List.mem_append, Tree.mem_listedBut, Option.mem_toList, ← hedited.written, Option.map_eq_some_iff]
  constructor
  · intro hlisted
    obtain ⟨name, row, hrow, rfl⟩ := hlisted
    rw [hsame hrow]
    by_cases hname : name = edit.name
    · subst hname
      exact .inr ⟨row, hrow, rfl⟩
    · rw [hedited.kept (fun heq => hname (Prod.mk.inj heq).2)] at hrow
      exact .inl ⟨name, row, hrow, hname, rfl⟩
  · intro hlisted
    rcases hlisted with hkept | hnew
    · obtain ⟨name, row, hrow, hname, rfl⟩ := hkept
      rw [← hedited.kept (fun heq => hname (Prod.mk.inj heq).2)] at hrow
      exact ⟨name, row, hrow, (hsame hrow).symm⟩
    · obtain ⟨row, hrow, rfl⟩ := hnew
      exact ⟨edit.name, row, hrow, (hsame hrow).symm⟩

/-- The parent of an updated directory lists the new root of that directory, and everything else as before. -/
theorem relisted_above {below : DirectoryUpdate} {lower : DirectoryRow} {id : Identity} {dataRoot : Digest}
    {revision : Nat} (hbelow : below ∈ updates) (hlower : tree.directories.lookup below.directoryId = some lower)
    (hparent : lower.parentId = some id)
    (hentry : tree.entries.lookup (id, lower.name) = some ⟨.directory below.directoryId dataRoot, revision⟩)
    {listed : DirectoryMerkleEntry} :
    listed ∈ (edited.listing id).map (Tree.relist (edited.rootAfter updates)) ↔
      listed ∈ tree.listedBut id lower.name ++ [.directory lower.name below.directoryId below.newRoot] := by
  have hmem := List.mem_map_of_mem (f := DirectoryUpdate.directoryId) hbelow
  have hne : id ≠ start := by
    intro heq
    exact h.not_mem_of_parent hlower (heq ▸ hparent) hmem
  have hkept : ∀ name, edited.entries.lookup (id, name) = tree.entries.lookup (id, name) := fun name =>
    hedited.kept fun heq => hne (Prod.mk.inj heq).1
  have hnew : edited.rootAfter updates below.directoryId = below.newRoot := by
    rw [Tree.rootAfter, (newRootOf_eq_some h.nodup).mpr ⟨below, hbelow, rfl, rfl⟩, Option.getD_some]
  -- the entries of other children, whose roots stay
  have hsame : ∀ {name row}, tree.entries.lookup (id, name) = some row → name ≠ lower.name →
      Tree.relist (edited.rootAfter updates) (row.content.merkle name) = row.content.merkle name := by
    intro name row hrow hname
    rw [← hkept] at hrow
    apply relist_eq hedited hrow
    intro child childRoot hcontent hchild
    obtain ⟨content, rowRevision⟩ := row
    subst hcontent
    obtain ⟨other, hother, hotherParent, hotherName, _⟩ := edited_child hedited hrow
    rw [h.edited_row hedited hchild] at hother
    have heq := h.eq_of_parent hchild hmem hother hlower hotherParent hparent
    rw [heq, hlower] at hother
    cases hother
    exact hname hotherName.symm
  rw [mem_relisted, List.mem_append, Tree.mem_listedBut, List.mem_singleton]
  constructor
  · intro hlisted
    obtain ⟨name, row, hrow, rfl⟩ := hlisted
    rw [hkept] at hrow
    by_cases hname : name = lower.name
    · subst hname
      rw [hentry] at hrow
      cases hrow
      exact .inr (by rw [EntryContent.merkle, Tree.relist, hnew])
    · exact .inl ⟨name, row, hrow, hname, hsame hrow hname⟩
  · intro hlisted
    rcases hlisted with hold | rfl
    · obtain ⟨name, row, hrow, hname, rfl⟩ := hold
      exact ⟨name, row, (hkept name).trans hrow, (hsame hrow hname).symm⟩
    · exact ⟨lower.name, _, (hkept _).trans hentry, by rw [EntryContent.merkle, Tree.relist, hnew]⟩

theorem updated_root {update : DirectoryUpdate} (hmem : update ∈ updates) :
    directoryMerkleRoot prims ((edited.listing update.directoryId).map (Tree.relist (edited.rootAfter updates))) =
      .ok update.newRoot := by
  have hroot : ∀ {entries : List DirectoryMerkleEntry}, directoryMerkleRoot prims entries = .ok update.newRoot →
      (∀ listed, listed ∈ (edited.listing update.directoryId).map (Tree.relist (edited.rootAfter updates)) ↔
        listed ∈ entries) →
      directoryMerkleRoot prims ((edited.listing update.directoryId).map (Tree.relist (edited.rootAfter updates))) =
        .ok update.newRoot := by
    intro entries hentries hsame
    have hnodup := Renaming.nodup_relisted edited (edited.rootAfter updates) update.directoryId
    have hnames := (directoryMerkleRoot_succeeds_iff.mp ⟨_, hentries⟩).2.2
    rw [directoryMerkleRoot_perm hnodup ((List.perm_ext_iff_of_nodup hnodup.of_map hnames.of_map).mpr hsame), hentries]
  obtain ⟨link, hlevel, _⟩ := h.level hmem
  cases hlevel with
  | first _ hrow hplan =>
      have hstart := planLevel_directoryId hplan
      obtain ⟨entries, newRoot, hedit, hentries, _, hupdate⟩ := planLevel_eq_ok.mp hplan
      obtain ⟨_, rfl, _⟩ := editEntries_direct.mp hedit
      subst hupdate
      exact hroot hentries fun listed => h.relisted_start hedited
  | above hbelow _ hlower hparent hrow hplan =>
      obtain ⟨entries, newRoot, hedit, hentries, _, hupdate⟩ := planLevel_eq_ok.mp hplan
      obtain ⟨dataRoot, revision, hentry, rfl, _⟩ := editEntries_child.mp hedit
      apply hroot (by rw [hupdate]; exact hentries)
      exact fun listed => h.relisted_above hedited hbelow hlower hparent hentry

/-- The links of the plan carry the new roots into the entries of the parents. -/
theorem mem_links {link : LinkUpdate} : link ∈ links ↔
    (∃ dataRoot, edited.entries.lookup (link.parentDirectoryId, link.name) =
      some ⟨.directory link.childDirectoryId dataRoot, link.expectedRevision⟩) ∧
        newRootOf updates link.childDirectoryId = some link.newChildRoot := by
  have hkept : ∀ {below : DirectoryUpdate} {lower : DirectoryRow} {id : Identity} {name : Text}, below ∈ updates →
      tree.directories.lookup below.directoryId = some lower → lower.parentId = some id →
        edited.entries.lookup (id, name) = tree.entries.lookup (id, name) := by
    intro below lower id name hbelow hlower hparent
    apply hedited.kept
    intro heq
    have hstart := (Prod.mk.inj heq).1
    exact h.not_mem_of_parent hlower (hstart ▸ hparent) (List.mem_map_of_mem hbelow)
  constructor
  · intro hmem
    obtain ⟨update, found, hlevel, hfound⟩ := h.link hmem
    cases hlevel with
    | first _ _ hplan =>
        obtain ⟨_, _, hedit, _⟩ := planLevel_eq_ok.mp hplan
        obtain ⟨_, _, rfl⟩ := editEntries_direct.mp hedit
        cases hfound
    | above hbelow _ hlower hparent _ hplan =>
        obtain ⟨_, _, hedit, _⟩ := planLevel_eq_ok.mp hplan
        obtain ⟨dataRoot, revision, hentry, _, rfl⟩ := editEntries_child.mp hedit
        rw [List.mem_singleton] at hfound
        subst hfound
        exact ⟨⟨dataRoot, (hkept hbelow hlower hparent).trans hentry⟩,
          (newRootOf_eq_some h.nodup).mpr ⟨_, hbelow, rfl, rfl⟩⟩
  · intro hlink
    obtain ⟨parentId, child, name, expectedRevision, newChildRoot⟩ := link
    obtain ⟨⟨dataRoot, hentry⟩, hroot⟩ := hlink
    dsimp only at hentry hroot
    obtain ⟨below, hbelow, hid, hnew⟩ := (newRootOf_eq_some h.nodup).mp hroot
    have hmem := List.mem_map_of_mem (f := DirectoryUpdate.directoryId) hbelow
    obtain ⟨lower, hlower, hparent, hname, _⟩ := edited_child hedited hentry
    rw [← hid, h.edited_row hedited hmem] at hlower
    -- the level above the child is the one that links it
    obtain ⟨update, hupdate, hupdateId⟩ := List.mem_map.mp (h.parent_mem hmem hlower hparent)
    obtain ⟨found, hlevel, hfound⟩ := h.level hupdate
    cases hlevel with
    | first _ _ hplan =>
        rw [← hupdateId, planLevel_directoryId hplan] at hparent
        exact absurd hmem (h.not_mem_of_parent hlower hparent)
    | above hother _ hlower' hparent' _ hplan =>
        have hsame := h.eq_of_parent (List.mem_map_of_mem hother) hmem hlower' hlower hparent' (hupdateId ▸ hparent)
        have heq := List.inj_on_of_nodup_map h.nodup hother hbelow hsame
        subst heq
        rw [hlower] at hlower'
        cases hlower'
        obtain ⟨_, _, hedit, _⟩ := planLevel_eq_ok.mp hplan
        obtain ⟨dataRoot', revision, hentry', _, rfl⟩ := editEntries_child.mp hedit
        rw [hupdateId] at hentry' hfound
        rw [← hname, hkept hbelow hlower hparent, hentry'] at hentry
        cases hentry
        have hlast := hfound _ (List.mem_singleton_self _)
        rwa [hname, hnew, hid] at hlast

omit hedited in
theorem linkedOnce : (links.map fun link => (link.parentDirectoryId, link.name)).Nodup := by
  refine List.Nodup.of_map Prod.fst ?_
  rw [List.map_map]
  exact h.nodup.sublist h.linked_parents

theorem rewriting (hsettled : tree.Settled prims) : Rewriting prims edited updates links where
  rooted := hedited.rooted
  linked := hedited.linked
  housed := hedited.housed
  emptied := by
    intro id row hrow hgone
    rcases hedited.rows hrow with hold | ⟨hempty, _⟩
    · exact hsettled.emptied hold hgone
    · exact hempty
  childRoot := hedited.childRoot
  once := h.nodup
  current := by
    intro update hmem
    rw [h.edited_row hedited (List.mem_map_of_mem hmem)]
    exact h.current hmem
  linkedOnce := h.linkedOnce
  links := h.mem_links hedited
  roots := by
    intro id row hrow hactive
    by_cases hmem : id ∈ updates.map DirectoryUpdate.directoryId
    · obtain ⟨update, hupdate, rfl⟩ := List.mem_map.mp hmem
      rw [h.updated_root hedited hupdate, Tree.rootAfter,
        (newRootOf_eq_some h.nodup).mpr ⟨update, hupdate, rfl, rfl⟩, Option.getD_some]
    · rw [Rewriting.rootAfter_of_not_mem hrow hmem]
      rcases hedited.rows hrow with hold | ⟨hempty, hnone, _⟩
      · have hstart : id ≠ start := fun heq => hmem (heq ▸ h.start_mem)
        have hkept : edited.storedEntries id = tree.storedEntries id :=
          Tree.storedEntries_congr fun name => hedited.kept fun heq => hstart (Prod.mk.inj heq).1
        have hlisting : (edited.listing id).map (Tree.relist (edited.rootAfter updates)) = edited.listing id := by
          rw [← List.map_id (edited.listing id), List.map_map]
          refine List.map_congr_left fun listed hlisted => ?_
          obtain ⟨name, entry, hentry, rfl⟩ := Tree.mem_listing.mp hlisted
          apply relist_eq hedited hentry
          intro child dataRoot hcontent hchild
          obtain ⟨content, revision⟩ := entry
          subst hcontent
          obtain ⟨below, hbelow, hparent, _⟩ := edited_child hedited hentry
          rw [h.edited_row hedited hchild] at hbelow
          exact hmem (h.parent_mem hchild hbelow hparent)
        rw [hlisting, Tree.listing, hkept]
        exact hsettled.roots hold hactive
      · rw [Tree.listing_eq_nil fun name found hfound => by rw [hnone] at hfound; cases hfound]
        exact hempty

end Climb

end Rewritten

end Skydriver
