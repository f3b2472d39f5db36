import Skydriver.Catalog.Node

/-!
# Checkpoints are rooted trees

`WellFormedCheckpoint` says what a checkpoint is for: a bounded, canonically ordered list of directory nodes that form
one tree below the root, each node carrying the Merkle root of its entries.  The validator accepts exactly these.

The tree is stated by paths.  `Reaches` follows directory entries from the root by name, and every listed node has
exactly one path.  The validator never compares paths: it relies on each child naming its parent, so that a node met by
two links would be met twice with the same parent.
-/

namespace Skydriver

open Checked

/-! ### The specification -/

/-- Following directory entries from the root by the names on `path` leads to the directory. -/
inductive Reaches (checkpoint : CatalogCheckpoint) : List Text → Text → Prop
  | root : Reaches checkpoint [] checkpoint.rootDirectoryId
  | link {path : List Text} {directory : CatalogCheckpointDirectory} {entry : CatalogCheckpointEntry} {child : Text}
      (hpath : Reaches checkpoint path directory.directoryId) (hdirectory : directory ∈ checkpoint.directories)
      (hentry : entry ∈ directory.entries) (hkind : entry.kind = .directory)
      (hchild : entry.childDirectoryId = some child) : Reaches checkpoint (path ++ [entry.name]) child

/-- A directory entry and the node it links agree on the parent, the name and the data root. -/
structure Links (directory : CatalogCheckpointDirectory) (entry : CatalogCheckpointEntry)
    (child : CatalogCheckpointDirectory) : Prop where
  identity : entry.childDirectoryId = some child.directoryId
  parent : child.parentDirectoryId = some directory.directoryId
  name : child.name = entry.name
  dataRoot : child.dataRoot = entry.dataRoot

/-- The listed directories form exactly one tree below the root. -/
structure RootedTree (checkpoint : CatalogCheckpoint) : Prop where
  root : ∃ root ∈ checkpoint.directories, root.directoryId = checkpoint.rootDirectoryId ∧
    root.parentDirectoryId = none ∧ root.name = [] ∧ root.dataRoot = checkpoint.rootDataRoot
  linked : ∀ directory ∈ checkpoint.directories, ∀ entry ∈ directory.entries, entry.kind = .directory →
    ∃ child ∈ checkpoint.directories, Links directory entry child
  reachedOnce : ∀ directory ∈ checkpoint.directories, ∃! path, Reaches checkpoint path directory.directoryId

/-- The header fields are well formed and the sizes within bounds. -/
structure WellFormedHeader (checkpoint : CatalogCheckpoint) : Prop where
  schema : checkpoint.schema = catalogCheckpointSchema
  revision : checkpoint.revisionId ≠ 0
  created : checkpoint.createdAt ≠ 0
  parentRevision : ∀ parent, checkpoint.parentRevisionId = some parent → parent < checkpoint.revisionId
  filesystem : IsIdentity 16 checkpoint.filesystemId
  rootDirectory : IsIdentity 16 checkpoint.rootDirectoryId
  rootData : IsIdentity 32 checkpoint.rootDataRoot
  nonempty : checkpoint.directories ≠ []
  directoryBound : checkpoint.directories.length ≤ maximumCatalogDirectories
  entryBound : (checkpoint.directories.map fun directory => directory.entries.length).sum ≤ maximumCatalogEntries

structure WellFormedCheckpoint (prims : Primitives) (checkpoint : CatalogCheckpoint) : Prop where
  header : WellFormedHeader checkpoint
  directoryOrder : KeyOrder.StrictlyOrdered CatalogCheckpointDirectory.directoryId checkpoint.directories
  entryOrder : ∀ directory ∈ checkpoint.directories,
    KeyOrder.StrictlyOrdered CatalogCheckpointEntry.name directory.entries
  tree : RootedTree checkpoint
  roots : ∀ directory ∈ checkpoint.directories, CommitsTo prims directory.dataRoot directory.entries

/-! ### Links and the walk -/

theorem findDirectory_eq_some {directories : List CatalogCheckpointDirectory}
    (horder : KeyOrder.StrictlyOrdered CatalogCheckpointDirectory.directoryId directories) {directoryId : Text}
    {directory : CatalogCheckpointDirectory} :
    findDirectory directories directoryId = some directory ↔
      directory ∈ directories ∧ directory.directoryId = directoryId := by
  constructor
  · intro h
    exact ⟨List.mem_of_find?_eq_some h, by simpa using List.find?_some h⟩
  · rintro ⟨hmem, rfl⟩
    cases hfind : findDirectory directories directory.directoryId with
    | none =>
        have hnone := List.find?_eq_none.mp hfind directory hmem
        simp at hnone
    | some found =>
        have hfound := List.find?_some hfind
        rw [beq_iff_eq] at hfound
        rw [horder.eq_of_key (List.mem_of_find?_eq_some hfind) hmem hfound]

/-- The child identities of the directory entries, in order. -/
def directoryLinks (entries : List CatalogCheckpointEntry) : List Text :=
  entries.filterMap fun entry => if entry.kind = .directory then entry.childDirectoryId else none

theorem mem_directoryLinks {entries : List CatalogCheckpointEntry} {child : Text} :
    child ∈ directoryLinks entries ↔
      ∃ entry ∈ entries, entry.kind = .directory ∧ entry.childDirectoryId = some child := by
  simp [directoryLinks]

theorem linkedChildren_eq_ok {directories : List CatalogCheckpointDirectory}
    (horder : KeyOrder.StrictlyOrdered CatalogCheckpointDirectory.directoryId directories)
    {directory : CatalogCheckpointDirectory} {entries : List CatalogCheckpointEntry} {children : List Text} :
    linkedChildren directories directory entries = .ok children ↔
      children = directoryLinks entries ∧
      ∀ entry ∈ entries, entry.kind = .directory → ∃ child ∈ directories, Links directory entry child := by
  induction entries generalizing children with
  | nil => simp [linkedChildren, directoryLinks, eq_comm]
  | cons entry entries ih =>
      rw [linkedChildren, List.forall_mem_cons]
      cases hkind : entry.kind with
      | file => simp [ih, directoryLinks, hkind]
      | directory =>
          simp only [bind_eq_ok, orFail_eq_ok, ensure_eq_ok, Bool.and_eq_true, decide_eq_true_eq, ih, Except.ok.injEq,
            findDirectory_eq_some horder, forall_true_left]
          constructor
          · rintro ⟨childId, hchildId, child, ⟨hchild, rfl⟩, _, ⟨⟨hparent, hname⟩, hroot⟩, rest, ⟨rfl, hrest⟩, rfl⟩
            refine ⟨by simp [directoryLinks, hkind, hchildId], ⟨child, hchild, hchildId, hparent, hname, hroot⟩, hrest⟩
          · rintro ⟨rfl, ⟨child, hchild, hlink⟩, hrest⟩
            refine ⟨child.directoryId, hlink.identity, child, ⟨hchild, rfl⟩, (),
              ⟨⟨hlink.parent, hlink.name⟩, hlink.dataRoot⟩, directoryLinks entries, ⟨rfl, hrest⟩, ?_⟩
            simp [directoryLinks, hkind, hlink.identity]

theorem expandDirectory_eq_ok {directories : List CatalogCheckpointDirectory}
    (horder : KeyOrder.StrictlyOrdered CatalogCheckpointDirectory.directoryId directories) {directoryId : Text}
    {directory : CatalogCheckpointDirectory} {children : List Text} :
    expandDirectory directories directoryId = .ok (directory, children) ↔
      directory ∈ directories ∧ directory.directoryId = directoryId ∧
      children = (directoryLinks directory.entries).reverse ∧
      ∀ entry ∈ directory.entries, entry.kind = .directory → ∃ child ∈ directories, Links directory entry child := by
  simp only [expandDirectory, bind_eq_ok, orFail_eq_ok, findDirectory_eq_some horder, linkedChildren_eq_ok horder,
    Except.ok.injEq, Prod.mk.injEq]
  constructor
  · rintro ⟨found, ⟨hfound, rfl⟩, links, ⟨rfl, hlinks⟩, rfl, rfl⟩
    exact ⟨hfound, rfl, rfl, hlinks⟩
  · rintro ⟨hdirectory, rfl, rfl, hlinks⟩
    exact ⟨directory, ⟨hdirectory, rfl⟩, _, ⟨rfl, hlinks⟩, rfl, rfl⟩

theorem Reaches.nil_eq {checkpoint : CatalogCheckpoint} {target : Text} (h : Reaches checkpoint [] target) :
    target = checkpoint.rootDirectoryId := by
  generalize hpath : ([] : List Text) = path at h
  cases h with
  | root => rfl
  | link => simp at hpath

section Paths

variable {checkpoint : CatalogCheckpoint}
  (horder : KeyOrder.StrictlyOrdered CatalogCheckpointDirectory.directoryId checkpoint.directories)
  (hroot : ∃ root ∈ checkpoint.directories, root.directoryId = checkpoint.rootDirectoryId ∧
    root.parentDirectoryId = none)
  (hlinked : ∀ directory ∈ checkpoint.directories, ∀ entry ∈ directory.entries, entry.kind = .directory →
    ∃ child ∈ checkpoint.directories, Links directory entry child)

include hlinked in
theorem Reaches.last_link {path : List Text} {target : Text} (h : Reaches checkpoint path target) (hpath : path ≠ []) :
    ∃ directory ∈ checkpoint.directories, ∃ entry ∈ directory.entries, ∃ child ∈ checkpoint.directories, ∃ front,
      child.directoryId = target ∧ Links directory entry child ∧ entry.kind = .directory ∧
      path = front ++ [entry.name] ∧ Reaches checkpoint front directory.directoryId := by
  cases h with
  | root => exact absurd rfl hpath
  | @link front directory entry child hfront hdirectory hentry hkind hchild =>
      obtain ⟨node, hnode, hlink⟩ := hlinked directory hdirectory entry hentry hkind
      have hidentity := hlink.identity
      rw [hchild, Option.some.injEq] at hidentity
      exact ⟨directory, hdirectory, entry, hentry, node, hnode, front, hidentity.symm, hlink, hkind, rfl, hfront⟩

include horder hroot hlinked in
/-- Each node names its parent and its name there, so a path is determined by its end. -/
theorem Reaches.unique {path path' : List Text} {target : Text} (h : Reaches checkpoint path target)
    (h' : Reaches checkpoint path' target) : path = path' := by
  obtain ⟨root, hrootMem, hrootId, horphan⟩ := hroot
  -- the root has no parent, so nothing links to it
  have hnoLink : ∀ front, front ≠ [] → ¬ Reaches checkpoint front checkpoint.rootDirectoryId := by
    intro front hfront hreach
    obtain ⟨_, _, _, _, child, hchild, _, hsame, hlink, _⟩ := hreach.last_link hlinked hfront
    have hchildRoot := horder.eq_of_key hchild hrootMem (hsame.trans hrootId.symm)
    have hparent := hlink.parent
    rw [hchildRoot, horphan] at hparent
    cases hparent
  induction path using List.reverseRecOn generalizing path' target with
  | nil =>
      by_contra hne
      exact hnoLink path' (Ne.symm hne) (h.nil_eq ▸ h')
  | append_singleton front name ih =>
      have hnonempty' : path' ≠ [] := by
        rintro rfl
        exact hnoLink _ (by simp) (h'.nil_eq ▸ h)
      obtain ⟨parent, hparent, entry, hentry, child, hchild, first, hsame, hlink, _, hsplit, hfirst⟩ :=
        h.last_link hlinked (by simp)
      obtain ⟨parent', hparent', entry', hentry', child', hchild', first', hsame', hlink', _, hsplit', hfirst'⟩ :=
        h'.last_link hlinked hnonempty'
      obtain rfl := horder.eq_of_key hchild hchild' (hsame.trans hsame'.symm)
      have hparents : parent.directoryId = parent'.directoryId :=
        Option.some.inj (hlink.parent.symm.trans hlink'.parent)
      obtain ⟨rfl, _⟩ := List.append_inj' hsplit rfl
      have hfront := ih hfirst (hparents ▸ hfirst')
      rw [hsplit, hsplit', ← hlink.name, ← hlink'.name, hfront]

end Paths

/-! ### Acceptance -/

section Acceptance

variable {prims : Primitives} {checkpoint : CatalogCheckpoint}

theorem validateCatalogCheckpoint_eq_ok :
    validateCatalogCheckpoint prims checkpoint = .ok () ↔
      WellFormedHeader checkpoint ∧
      KeyOrder.StrictlyOrdered CatalogCheckpointDirectory.directoryId checkpoint.directories ∧
      (∀ directory ∈ checkpoint.directories, WellFormedDirectory prims directory) ∧
      (∃ root ∈ checkpoint.directories, root.directoryId = checkpoint.rootDirectoryId ∧
        root.parentDirectoryId = none ∧ root.name = [] ∧ root.dataRoot = checkpoint.rootDataRoot) ∧
      ∃ visited, walkDirectories checkpoint.directories [checkpoint.rootDirectoryId] = .ok visited ∧
        visited.length = checkpoint.directories.length := by
  have hzero : 0 ≤ maximumCatalogEntries := Nat.zero_le _
  rw [validateCatalogCheckpoint, ensure_bind_eq_ok, decodeHex_bind_eq_ok, decodeHex_bind_eq_ok, decodeHex_bind_eq_ok,
    ensure_bind_eq_ok, ensure_bind_eq_ok, KeyOrder.windowsAscend_iff]
  simp only [bind_eq_ok, validateDirectories_eq_ok hzero, orFail_eq_ok, ensure_eq_ok, Bool.and_eq_true, beq_iff_eq,
    decide_eq_true_eq, Option.all_eq_true, Bool.not_eq_true', List.isEmpty_eq_false_iff, List.isEmpty_iff,
    Option.isNone_iff_eq_none, Nat.zero_add]
  constructor
  · rintro ⟨⟨⟨⟨hschema, hrevision⟩, hcreated⟩, hparent⟩, hfilesystem, hrootDirectory, hrootData, ⟨hnonempty, hbound⟩,
      horder, _, ⟨hall, _, _, hsum⟩, root, hroot, _, ⟨⟨horphan, hname⟩, hdata⟩, visited, hvisited, hlength⟩
    rw [findDirectory_eq_some horder] at hroot
    exact ⟨⟨hschema, hrevision, hcreated, hparent, hfilesystem, hrootDirectory, hrootData, hnonempty, hbound, hsum⟩,
      horder, hall, ⟨root, hroot.1, hroot.2, horphan, hname, hdata⟩, visited, hvisited, hlength⟩
  · rintro ⟨hheader, horder, hall, ⟨root, hroot, hrootId, horphan, hname, hdata⟩, visited, hvisited, hlength⟩
    exact ⟨⟨⟨⟨hheader.schema, hheader.revision⟩, hheader.created⟩, hheader.parentRevision⟩, hheader.filesystem,
      hheader.rootDirectory, hheader.rootData, ⟨hheader.nonempty, hheader.directoryBound⟩, horder, (),
      ⟨hall, by simp, horder.nodup, hheader.entryBound⟩, root, (findDirectory_eq_some horder).mpr ⟨hroot, hrootId⟩, (),
      ⟨⟨horphan, hname⟩, hdata⟩, visited, hvisited, hlength⟩

/-- Each visit recorded the node listed under its identity, with checked links whose ends were visited too. -/
theorem walkDirectories_visit {directories : List CatalogCheckpointDirectory}
    (horder : KeyOrder.StrictlyOrdered CatalogCheckpointDirectory.directoryId directories) {pending : List Text}
    {visited : List (Text × CatalogCheckpointDirectory)} (h : walkDirectories directories pending = .ok visited)
    {identity : Text} {directory : CatalogCheckpointDirectory} (hvisit : (identity, directory) ∈ visited) :
    directory ∈ directories ∧ directory.directoryId = identity ∧
      (∀ entry ∈ directory.entries, entry.kind = .directory → ∃ child ∈ directories, Links directory entry child) ∧
      ∀ child ∈ directoryLinks directory.entries, ∃ output, (child, output) ∈ visited := by
  obtain ⟨children, hexpand, hchildren⟩ :=
    ((Worklist.walk_collects h).2.2 (identity, directory) hvisit).resolve_left (by simp)
  obtain ⟨hdirectory, hidentity, rfl, hlinks⟩ := (expandDirectory_eq_ok horder).mp hexpand
  exact ⟨hdirectory, hidentity, hlinks, fun child hchild => hchildren child (List.mem_reverse.mpr hchild)⟩

/-- A walk that met as many identities as are listed met every listed directory. -/
theorem walkDirectories_covers (horder : KeyOrder.StrictlyOrdered CatalogCheckpointDirectory.directoryId
      checkpoint.directories) {pending : List Text} {visited : List (Text × CatalogCheckpointDirectory)}
    (h : walkDirectories checkpoint.directories pending = .ok visited)
    (hlength : visited.length = checkpoint.directories.length) {directory : CatalogCheckpointDirectory}
    (hdirectory : directory ∈ checkpoint.directories) :
    (directory.directoryId, directory) ∈ visited := by
  have hnodup : (visited.map Prod.fst).Nodup := Worklist.walk_nodup h (by simp)
  have hsubset : visited.map Prod.fst ⊆ checkpoint.directories.map CatalogCheckpointDirectory.directoryId := by
    intro identity hidentity
    obtain ⟨visit, hvisit, rfl⟩ := List.mem_map.mp hidentity
    exact Worklist.walk_known h (by simp) visit hvisit
  have hperm := (List.subperm_of_subset hnodup hsubset).perm_of_length_le (by simp [hlength])
  obtain ⟨⟨identity, output⟩, hvisit, hidentity⟩ :=
    List.mem_map.mp (hperm.mem_iff.mpr (List.mem_map_of_mem hdirectory))
  obtain ⟨houtput, hsame, _⟩ := walkDirectories_visit horder h hvisit
  change identity = directory.directoryId at hidentity
  rwa [hidentity, horder.eq_of_key houtput hdirectory (hsame.trans hidentity)] at hvisit

theorem walkDirectories_reaches (horder : KeyOrder.StrictlyOrdered CatalogCheckpointDirectory.directoryId
      checkpoint.directories) {visited : List (Text × CatalogCheckpointDirectory)}
    (h : walkDirectories checkpoint.directories [checkpoint.rootDirectoryId] = .ok visited) :
    ∀ visit ∈ visited, ∃ path, Reaches checkpoint path visit.1 := by
  refine Worklist.walk_invariant (fun identity => ∃ path, Reaches checkpoint path identity) ?_ h ?_ (by simp)
  · rintro identity directory children ⟨path, hpath⟩ hexpand child hchild
    obtain ⟨hdirectory, rfl, rfl, _⟩ := (expandDirectory_eq_ok horder).mp hexpand
    rw [List.mem_reverse, mem_directoryLinks] at hchild
    obtain ⟨entry, hentry, hkind, hchild⟩ := hchild
    exact ⟨_, hpath.link hdirectory hentry hkind hchild⟩
  · exact fun identity hidentity => ⟨[], List.mem_singleton.mp hidentity ▸ .root⟩

theorem wellFormed_of_validate (h : validateCatalogCheckpoint prims checkpoint = .ok ()) :
    WellFormedCheckpoint prims checkpoint := by
  obtain ⟨hheader, horder, hall, hroot, visited, hvisited, hlength⟩ := validateCatalogCheckpoint_eq_ok.mp h
  have hlinked : ∀ directory ∈ checkpoint.directories, ∀ entry ∈ directory.entries, entry.kind = .directory →
      ∃ child ∈ checkpoint.directories, Links directory entry child := by
    intro directory hdirectory
    exact (walkDirectories_visit horder hvisited (walkDirectories_covers horder hvisited hlength hdirectory)).2.2.1
  refine ⟨hheader, horder, fun directory hdirectory => (hall directory hdirectory).entryOrder,
    ⟨hroot, hlinked, fun directory hdirectory => ?_⟩, fun directory hdirectory => (hall directory hdirectory).root⟩
  obtain ⟨path, hpath⟩ :=
    walkDirectories_reaches horder hvisited _ (walkDirectories_covers horder hvisited hlength hdirectory)
  obtain ⟨root, hrootMem, hrootId, horphan, _⟩ := hroot
  exact ⟨path, hpath, fun other hother => hother.unique horder ⟨root, hrootMem, hrootId, horphan⟩ hlinked hpath⟩

/-- A listed directory is the root or the child of a link that starts nearer to the root. -/
theorem WellFormedCheckpoint.incoming (hwf : WellFormedCheckpoint prims checkpoint)
    {directory : CatalogCheckpointDirectory} (hdirectory : directory ∈ checkpoint.directories) :
    directory.directoryId = checkpoint.rootDirectoryId ∨
      ∃ parent ∈ checkpoint.directories, ∃ entry ∈ parent.entries, entry.kind = .directory ∧
        Links parent entry directory ∧ parent.directoryId ≠ directory.directoryId := by
  obtain ⟨path, hpath, honly⟩ := hwf.tree.reachedOnce directory hdirectory
  by_cases hempty : path = []
  · subst hempty
    exact .inl hpath.nil_eq
  · obtain ⟨parent, hparent, entry, hentry, child, hchild, front, hsame, hlink, hkind, rfl, hfront⟩ :=
      hpath.last_link hwf.tree.linked hempty
    obtain rfl := hwf.directoryOrder.eq_of_key hchild hdirectory hsame
    refine .inr ⟨parent, hparent, entry, hentry, hkind, hlink, fun hself => ?_⟩
    have hloop := honly front (hself ▸ hfront)
    simp at hloop

theorem WellFormedCheckpoint.directory (hwf : WellFormedCheckpoint prims checkpoint)
    {directory : CatalogCheckpointDirectory} (hdirectory : directory ∈ checkpoint.directories) :
    WellFormedDirectory prims directory := by
  have hidentities : IsIdentity 16 directory.directoryId ∧ IsIdentity 32 directory.dataRoot := by
    rcases hwf.incoming hdirectory with hrootId | ⟨parent, hparent, entry, hentry, hkind, hlink, _⟩
    · obtain ⟨root, hroot, hid, _, _, hdata⟩ := hwf.tree.root
      obtain rfl := hwf.directoryOrder.eq_of_key hroot hdirectory (hid.trans hrootId.symm)
      rw [hid, hdata]
      exact ⟨hwf.header.rootDirectory, hwf.header.rootData⟩
    · obtain ⟨hdata, child, hchild, hidentity⟩ := (hwf.roots parent hparent).directory_entry hentry hkind
      rw [hlink.identity, Option.some.injEq] at hchild
      exact ⟨hchild ▸ hidentity, hlink.dataRoot ▸ hdata⟩
  refine ⟨hidentities.1, ?_, hidentities.2, hwf.entryOrder directory hdirectory, hwf.roots directory hdirectory⟩
  intro parentId hparentId
  rcases hwf.incoming hdirectory with hrootId | ⟨parent, hparent, entry, hentry, hkind, hlink, hother⟩
  · obtain ⟨root, hroot, hid, horphan, _⟩ := hwf.tree.root
    obtain rfl := hwf.directoryOrder.eq_of_key hroot hdirectory (hid.trans hrootId.symm)
    rw [horphan] at hparentId
    cases hparentId
  · rw [hlink.parent, Option.some.injEq] at hparentId
    subst hparentId
    refine ⟨?_, hother⟩
    rcases hwf.incoming hparent with hrootId | ⟨above, habove, link, hlinkMem, hlinkKind, habove_link, _⟩
    · exact hrootId ▸ hwf.header.rootDirectory
    · obtain ⟨_, child, hchild, hidentity⟩ := (hwf.roots above habove).directory_entry hlinkMem hlinkKind
      rw [habove_link.identity, Option.some.injEq] at hchild
      exact hchild ▸ hidentity

/-- Two directory entries of one node never link the same child: the child carries the entry's name. -/
theorem WellFormedCheckpoint.directoryLinks_nodup (hwf : WellFormedCheckpoint prims checkpoint)
    {directory : CatalogCheckpointDirectory} (hdirectory : directory ∈ checkpoint.directories) :
    (directoryLinks directory.entries).Nodup := by
  rw [directoryLinks, List.Nodup, List.pairwise_filterMap]
  refine (hwf.entryOrder directory hdirectory).imp_of_mem fun {left right} hleft hright hlt => ?_
  intro child hchild child' hchild' hsame
  subst hsame
  split_ifs at hchild hchild' with hkind hkind'
  obtain ⟨node, hnode, hlink⟩ := hwf.tree.linked directory hdirectory left hleft hkind
  obtain ⟨node', hnode', hlink'⟩ := hwf.tree.linked directory hdirectory right hright hkind'
  have hid : node.directoryId = node'.directoryId := by
    have hleftId := hlink.identity.symm.trans hchild
    have hrightId := hlink'.identity.symm.trans hchild'
    exact Option.some.inj (hleftId.trans hrightId.symm)
  obtain rfl := hwf.directoryOrder.eq_of_key hnode hnode' hid
  rw [← hlink.name, ← hlink'.name] at hlt
  exact List.lt_irrefl _ hlt

/-- What holds of the root and is passed on along links holds of every listed directory. -/
theorem WellFormedCheckpoint.all_reached (hwf : WellFormedCheckpoint prims checkpoint) (Holds : Text → Prop)
    (hroot : Holds checkpoint.rootDirectoryId)
    (hlinks : ∀ directory ∈ checkpoint.directories, Holds directory.directoryId →
      ∀ child ∈ directoryLinks directory.entries, Holds child) :
    ∀ directory ∈ checkpoint.directories, Holds directory.directoryId := by
  have hreaches : ∀ path identity, Reaches checkpoint path identity → Holds identity := by
    intro path identity hreach
    induction hreach with
    | root => exact hroot
    | link _ hdirectory hentry hkind hchild ih =>
        exact hlinks _ hdirectory ih _ (mem_directoryLinks.mpr ⟨_, hentry, hkind, hchild⟩)
  intro directory hdirectory
  obtain ⟨path, hpath, _⟩ := hwf.tree.reachedOnce directory hdirectory
  exact hreaches path _ hpath

/-- The walk over a well-formed checkpoint succeeds and meets every directory. -/
theorem WellFormedCheckpoint.walk_succeeds (hwf : WellFormedCheckpoint prims checkpoint) :
    ∃ visited, walkDirectories checkpoint.directories [checkpoint.rootDirectoryId] = .ok visited ∧
      visited.length = checkpoint.directories.length := by
  have horder := hwf.directoryOrder
  obtain ⟨root, hroot, hrootId, horphan, _⟩ := hwf.tree.root
  obtain ⟨visited, hvisited⟩ : ∃ visited, walkDirectories checkpoint.directories [checkpoint.rootDirectoryId] =
      .ok visited := by
    apply Worklist.walk_complete
      (fun identity => (findDirectory checkpoint.directories identity).bind CatalogCheckpointDirectory.parentDirectoryId)
      (fun identity => ∃ directory ∈ checkpoint.directories, directory.directoryId = identity)
    · intro identity hidentity
      obtain ⟨directory, hdirectory, rfl⟩ := hidentity
      refine ⟨List.mem_map_of_mem hdirectory, directory, (directoryLinks directory.entries).reverse,
        (expandDirectory_eq_ok horder).mpr ⟨hdirectory, rfl, rfl, hwf.tree.linked directory hdirectory⟩, ?_, ?_⟩
      · rw [List.map_id, List.nodup_reverse]
        exact hwf.directoryLinks_nodup hdirectory
      · intro child hchild
        rw [List.mem_reverse, mem_directoryLinks] at hchild
        obtain ⟨entry, hentry, hkind, hchild⟩ := hchild
        obtain ⟨node, hnode, hlink⟩ := hwf.tree.linked directory hdirectory entry hentry hkind
        rw [hlink.identity, Option.some.injEq] at hchild
        subst hchild
        refine ⟨⟨node, hnode, rfl⟩, ?_⟩
        simp only [id_eq]
        rw [(findDirectory_eq_some horder).mpr ⟨hnode, rfl⟩, Option.bind_some, hlink.parent]
    · exact ⟨root, hroot, hrootId⟩
    · simp only [id_eq, (findDirectory_eq_some horder).mpr ⟨hroot, hrootId⟩, Option.bind_some, horphan]
  refine ⟨visited, hvisited, ?_⟩
  have hreached : ∀ directory ∈ checkpoint.directories, ∃ output, (directory.directoryId, output) ∈ visited := by
    refine hwf.all_reached (fun identity => ∃ output, (identity, output) ∈ visited)
      ((Worklist.walk_collects hvisited).1 _ (List.mem_singleton.mpr rfl)) ?_
    rintro directory hdirectory ⟨output, houtput⟩ child hchild
    obtain ⟨houtputMem, hsame, _, hchildren⟩ := walkDirectories_visit horder hvisited houtput
    obtain rfl := horder.eq_of_key houtputMem hdirectory hsame
    exact hchildren child hchild
  have hnodup : (visited.map Prod.fst).Nodup := Worklist.walk_nodup hvisited (by simp)
  have hids : (visited.map Prod.fst).Perm
      (checkpoint.directories.map CatalogCheckpointDirectory.directoryId) := by
    refine (List.perm_ext_iff_of_nodup hnodup horder.nodup).mpr fun identity => ⟨fun hidentity => ?_, fun hidentity => ?_⟩
    · obtain ⟨visit, hvisit, rfl⟩ := List.mem_map.mp hidentity
      exact Worklist.walk_known hvisited (by simp) visit hvisit
    · obtain ⟨directory, hdirectory, rfl⟩ := List.mem_map.mp hidentity
      obtain ⟨output, houtput⟩ := hreached directory hdirectory
      exact List.mem_map_of_mem houtput
  simpa using hids.length_eq

theorem validate_of_wellFormed (hwf : WellFormedCheckpoint prims checkpoint) :
    validateCatalogCheckpoint prims checkpoint = .ok () :=
  validateCatalogCheckpoint_eq_ok.mpr ⟨hwf.header, hwf.directoryOrder,
    fun _ hdirectory => hwf.directory hdirectory, hwf.tree.root, hwf.walk_succeeds⟩

/-- The validator, total on every checkpoint value, accepts exactly the rooted trees. -/
theorem validateCatalogCheckpoint_ok_iff (prims : Primitives) (checkpoint : CatalogCheckpoint) :
    validateCatalogCheckpoint prims checkpoint = .ok () ↔ WellFormedCheckpoint prims checkpoint :=
  ⟨wellFormed_of_validate, validate_of_wellFormed⟩

end Acceptance

end Skydriver
