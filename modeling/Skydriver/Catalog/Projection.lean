import Skydriver.Catalog.RoundTrip

/-!
# Projected views

`projectCatalogCheckpoint` re-roots a validated checkpoint at one of its directories.  The selection is the traversal
that follows the directory entries from the new root, the rest of the list is filtered away, and the new root loses its
parent and name before the result is validated again.

`projection` states the same view without a traversal, and `Below` is descent along directory entries.  A path below
the new root is a path of the source with a fixed front, which is why the view is a rooted tree again.
-/

namespace Skydriver

open Checked

/-! ### The projection as the code computes it -/

/-- The identities pushed for the entries of one selected directory, in the order of the entries. -/
def projectionChildren : List CatalogCheckpointEntry → Except Error (List Text)
  | [] => .ok []
  | entry :: entries =>
      match entry.kind with
      | .file => projectionChildren entries
      | .directory => do
          let childId ← entry.childDirectoryId.orFail (.invalidInput "catalog projection child identity is missing")
          let children ← projectionChildren entries
          .ok (childId :: children)

/-- One iteration of the selection; the last child pushed is the first one popped. -/
def expandProjection (directories : List CatalogCheckpointDirectory) (directoryId : Text) :
    Except Error (CatalogCheckpointDirectory × List Text) := do
  let directory ← (findDirectory directories directoryId).orFail
    (.invalidInput "catalog projection child is missing")
  let children ← projectionChildren directory.entries
  .ok (directory, children.reverse)

def selectDirectories (directories : List CatalogCheckpointDirectory) (rootDirectoryId : Text) :
    Except Error (List (Text × CatalogCheckpointDirectory)) :=
  Worklist.walk (directories.map CatalogCheckpointDirectory.directoryId) id
    (.invalidInput "catalog projection is not a tree") (.invalidInput "catalog projection child is missing")
    (expandProjection directories) [rootDirectoryId] []

/-- A directory without its parent and name. -/
def CatalogCheckpointDirectory.detached (directory : CatalogCheckpointDirectory) : CatalogCheckpointDirectory :=
  { directory with parentDirectoryId := none, name := [] }

/-- Detach the first directory listed under the identity of the new root. -/
def detachRoot (rootDirectoryId : Text) :
    List CatalogCheckpointDirectory → Except Error (List CatalogCheckpointDirectory)
  | [] => .error (.invalidInput "catalog projection root is missing")
  | directory :: directories =>
      if directory.directoryId == rootDirectoryId then .ok (directory.detached :: directories)
      else do
        let rest ← detachRoot rootDirectoryId directories
        .ok (directory :: rest)

/-- Produce the complete closure rooted at one directory of a checkpoint. -/
def projectCatalogCheckpoint (prims : Primitives) (checkpoint : CatalogCheckpoint) (rootDirectoryId : Text) :
    Except Error CatalogCheckpoint := do
  validateCatalogCheckpoint prims checkpoint
  let _ ← decodeHex 16 rootDirectoryId "catalog projection root identity is invalid"
  let root ← (findDirectory checkpoint.directories rootDirectoryId).orFail
    (.invalidInput "catalog projection root is missing")
  let selected ← selectDirectories checkpoint.directories rootDirectoryId
  let directories ← detachRoot rootDirectoryId
    (checkpoint.directories.filter fun directory => (selected.map Prod.fst).contains directory.directoryId)
  let projected : CatalogCheckpoint :=
    { schema := checkpoint.schema
      filesystemId := checkpoint.filesystemId
      revisionId := checkpoint.revisionId
      parentRevisionId := checkpoint.parentRevisionId
      rootDirectoryId
      rootDataRoot := root.dataRoot
      createdAt := checkpoint.createdAt
      directories }
  validateCatalogCheckpoint prims projected
  .ok projected

/-! ### Descent along directory entries -/

def LinksChild (directories : List CatalogCheckpointDirectory) (parent child : Text) : Prop :=
  ∃ directory ∈ directories, directory.directoryId = parent ∧ child ∈ directoryLinks directory.entries

/-- The second directory is the first one or one of its descendants. -/
def Below (directories : List CatalogCheckpointDirectory) : Text → Text → Prop :=
  Relation.ReflTransGen (LinksChild directories)

/-- What a client of the subtree learns about one directory. -/
structure DirectoryContent where
  directoryId : Text
  dataRoot : Text
  entries : List CatalogCheckpointEntry
deriving DecidableEq

/-- A directory without its navigation metadata. -/
def CatalogCheckpointDirectory.content (directory : CatalogCheckpointDirectory) : DirectoryContent :=
  { directoryId := directory.directoryId, dataRoot := directory.dataRoot, entries := directory.entries }

def subtreeContent (checkpoint : CatalogCheckpoint) (root : Text) : Set DirectoryContent :=
  { content | ∃ directory ∈ checkpoint.directories, Below checkpoint.directories root directory.directoryId ∧
    directory.content = content }

/-- The header fields that a projection keeps. -/
structure SameHeader (left right : CatalogCheckpoint) : Prop where
  schema : left.schema = right.schema
  filesystem : left.filesystemId = right.filesystemId
  revision : left.revisionId = right.revisionId
  parentRevision : left.parentRevisionId = right.parentRevisionId
  created : left.createdAt = right.createdAt

/-- A directory as the view rooted at `root` lists it. -/
def CatalogCheckpointDirectory.viewedFrom (directory : CatalogCheckpointDirectory) (root : Text) :
    CatalogCheckpointDirectory :=
  if directory.directoryId = root then directory.detached else directory

@[simp] theorem CatalogCheckpointDirectory.viewedFrom_content (directory : CatalogCheckpointDirectory) (root : Text) :
    (directory.viewedFrom root).content = directory.content := by
  unfold viewedFrom
  split_ifs <;> rfl

@[simp] theorem CatalogCheckpointDirectory.viewedFrom_directoryId (directory : CatalogCheckpointDirectory)
    (root : Text) : (directory.viewedFrom root).directoryId = directory.directoryId :=
  congrArg DirectoryContent.directoryId (directory.viewedFrom_content root)

@[simp] theorem CatalogCheckpointDirectory.viewedFrom_entries (directory : CatalogCheckpointDirectory) (root : Text) :
    (directory.viewedFrom root).entries = directory.entries :=
  congrArg DirectoryContent.entries (directory.viewedFrom_content root)

@[simp] theorem CatalogCheckpointDirectory.viewedFrom_dataRoot (directory : CatalogCheckpointDirectory) (root : Text) :
    (directory.viewedFrom root).dataRoot = directory.dataRoot :=
  congrArg DirectoryContent.dataRoot (directory.viewedFrom_content root)

open Classical in
/-- The listed directories below an identity, in the order of the list. -/
noncomputable def subtree (directories : List CatalogCheckpointDirectory) (root : Text) :
    List CatalogCheckpointDirectory :=
  directories.filter fun directory => Below directories root directory.directoryId

/-- The view rooted at a listed directory: that directory and its descendants under the header of the source. -/
noncomputable def projection (checkpoint : CatalogCheckpoint) (root : CatalogCheckpointDirectory) :
    CatalogCheckpoint :=
  { checkpoint with
    rootDirectoryId := root.directoryId
    rootDataRoot := root.dataRoot
    directories := (subtree checkpoint.directories root.directoryId).map (·.viewedFrom root.directoryId) }

theorem mem_subtree {directories : List CatalogCheckpointDirectory} {root : Text}
    {directory : CatalogCheckpointDirectory} :
    directory ∈ subtree directories root ↔ directory ∈ directories ∧ Below directories root directory.directoryId := by
  simp [subtree]

theorem subtree_sublist (directories : List CatalogCheckpointDirectory) (root : Text) :
    (subtree directories root).Sublist directories := List.filter_sublist

theorem mem_projection {checkpoint : CatalogCheckpoint} {root directory : CatalogCheckpointDirectory} :
    directory ∈ (projection checkpoint root).directories ↔
      ∃ source ∈ checkpoint.directories, Below checkpoint.directories root.directoryId source.directoryId ∧
        source.viewedFrom root.directoryId = directory := by
  simp [projection, mem_subtree, and_assoc]

/-! ### Descent in a rooted tree -/

section Descent

variable {prims : Primitives} {checkpoint : CatalogCheckpoint} (hwf : WellFormedCheckpoint prims checkpoint)

include hwf in
theorem LinksChild.links {parent child : Text} (h : LinksChild checkpoint.directories parent child) :
    ∃ above ∈ checkpoint.directories, ∃ entry ∈ above.entries, ∃ below ∈ checkpoint.directories,
      above.directoryId = parent ∧ below.directoryId = child ∧ entry.kind = .directory ∧ Links above entry below := by
  obtain ⟨above, habove, hparent, hchild⟩ := h
  obtain ⟨entry, hentry, hkind, hidentity⟩ := mem_directoryLinks.mp hchild
  obtain ⟨below, hbelow, hlink⟩ := hwf.tree.linked above habove entry hentry hkind
  exact ⟨above, habove, entry, hentry, below, hbelow, hparent,
    Option.some.inj (hlink.identity.symm.trans hidentity), hkind, hlink⟩

theorem Links.linksChild {directories : List CatalogCheckpointDirectory} {above below : CatalogCheckpointDirectory}
    {entry : CatalogCheckpointEntry} (hlink : Links above entry below) (habove : above ∈ directories)
    (hentry : entry ∈ above.entries) (hkind : entry.kind = .directory) :
    LinksChild directories above.directoryId below.directoryId :=
  ⟨above, habove, rfl, mem_directoryLinks.mpr ⟨entry, hentry, hkind, hlink.identity⟩⟩

include hwf in
theorem Below.listed {root directory : Text} (h : Below checkpoint.directories root directory)
    (hroot : ∃ node ∈ checkpoint.directories, node.directoryId = root) :
    ∃ node ∈ checkpoint.directories, node.directoryId = directory := by
  rcases h.cases_tail with rfl | ⟨above, _, hlink⟩
  · exact hroot
  · obtain ⟨_, _, _, _, below, hbelow, _, hid, _⟩ := hlink.links hwf
    exact ⟨below, hbelow, hid⟩

theorem Below.reaches {root directory : Text} {path : List Text} (h : Below checkpoint.directories root directory)
    (hpath : Reaches checkpoint path root) : ∃ rest, Reaches checkpoint (path ++ rest) directory := by
  induction h with
  | refl => exact ⟨[], by simpa using hpath⟩
  | tail _ hlink ih =>
      obtain ⟨rest, hrest⟩ := ih
      obtain ⟨above, habove, rfl, hchild⟩ := hlink
      obtain ⟨entry, hentry, hkind, hidentity⟩ := mem_directoryLinks.mp hchild
      exact ⟨rest ++ [entry.name], by simpa using hrest.link habove hentry hkind hidentity⟩

include hwf in
/-- Nothing below a directory links back to it: the link would give it a second path. -/
theorem WellFormedCheckpoint.not_linksChild_of_below {root directory : Text}
    (hbelow : Below checkpoint.directories root directory) :
    ¬ LinksChild checkpoint.directories directory root := by
  intro hlink
  obtain ⟨above, habove, entry, hentry, node, hnode, rfl, rfl, hkind, hlinks⟩ := hlink.links hwf
  obtain ⟨path, hpath, honly⟩ := hwf.tree.reachedOnce node hnode
  obtain ⟨rest, hrest⟩ := hbelow.reaches hpath
  have hlength := congrArg List.length (honly _ (hrest.link habove hentry hkind hlinks.identity))
  simp only [List.length_append, List.length_singleton] at hlength
  omega

include hwf in
theorem WellFormedCheckpoint.below_antisymm {upper lower : Text} (h : Below checkpoint.directories upper lower)
    (h' : Below checkpoint.directories lower upper) : upper = lower := by
  rcases h.cases_tail with heq | ⟨above, habove, hlink⟩
  · exact heq.symm
  · exact absurd hlink (hwf.not_linksChild_of_below (h'.trans habove))

include hwf in
theorem WellFormedCheckpoint.below_root {directory : CatalogCheckpointDirectory}
    (hdirectory : directory ∈ checkpoint.directories) :
    Below checkpoint.directories checkpoint.rootDirectoryId directory.directoryId :=
  hwf.all_reached (Below checkpoint.directories checkpoint.rootDirectoryId) .refl
    (fun above habove hbelow _ hchild => hbelow.tail ⟨above, habove, rfl, hchild⟩) directory hdirectory

/-! ### The selection -/

include hwf in
theorem projectionChildren_eq_ok {directory : CatalogCheckpointDirectory}
    (hdirectory : directory ∈ checkpoint.directories) {entries : List CatalogCheckpointEntry}
    (hentries : entries ⊆ directory.entries) : projectionChildren entries = .ok (directoryLinks entries) := by
  induction entries with
  | nil => rfl
  | cons entry entries ih =>
      rw [List.cons_subset] at hentries
      have htail := ih hentries.2
      rcases hkind : entry.kind with _ | _
      · simpa [projectionChildren, directoryLinks, hkind] using htail
      · obtain ⟨child, _, hlink⟩ := hwf.tree.linked directory hdirectory entry hentries.1 hkind
        simp only [projectionChildren, hkind, hlink.identity, some_orFail, ok_bind, htail]
        simp [directoryLinks, hkind, hlink.identity]

include hwf in
theorem expandProjection_eq_ok {directory : CatalogCheckpointDirectory}
    (hdirectory : directory ∈ checkpoint.directories) :
    expandProjection checkpoint.directories directory.directoryId =
      .ok (directory, (directoryLinks directory.entries).reverse) := by
  have hfound : findDirectory checkpoint.directories directory.directoryId = some directory :=
    (findDirectory_eq_some hwf.directoryOrder).mpr ⟨hdirectory, rfl⟩
  simp only [expandProjection, hfound, some_orFail, ok_bind,
    projectionChildren_eq_ok hwf hdirectory (List.Subset.refl _)]

include hwf in
/-- The traversal cannot meet a directory twice: below the new root every directory has the parent that links it. -/
theorem selectDirectories_succeeds {root : CatalogCheckpointDirectory} (hroot : root ∈ checkpoint.directories) :
    ∃ selected, selectDirectories checkpoint.directories root.directoryId = .ok selected := by
  apply Worklist.walk_complete
    (fun identity => if identity = root.directoryId then none else
      (findDirectory checkpoint.directories identity).bind CatalogCheckpointDirectory.parentDirectoryId)
    (fun identity => Below checkpoint.directories root.directoryId identity)
  · intro identity hbelow
    obtain ⟨directory, hdirectory, rfl⟩ := hbelow.listed hwf ⟨root, hroot, rfl⟩
    refine ⟨List.mem_map_of_mem hdirectory, directory, _, expandProjection_eq_ok hwf hdirectory, ?_, fun child hchild => ?_⟩
    · rw [List.map_id, List.nodup_reverse]
      exact hwf.directoryLinks_nodup hdirectory
    · have hlink : LinksChild checkpoint.directories directory.directoryId child :=
        ⟨directory, hdirectory, rfl, List.mem_reverse.mp hchild⟩
      have hother : child ≠ root.directoryId := by
        rintro rfl
        exact hwf.not_linksChild_of_below hbelow hlink
      obtain ⟨above, _, entry, _, node, hnode, habove, rfl, _, hlinks⟩ := hlink.links hwf
      refine ⟨hbelow.tail hlink, ?_⟩
      simp only [id_eq, if_neg hother, (findDirectory_eq_some hwf.directoryOrder).mpr ⟨hnode, rfl⟩, Option.bind_some,
        hlinks.parent, habove]
  · exact .refl
  · simp

include hwf in
theorem mem_selectDirectories {root : CatalogCheckpointDirectory} (hroot : root ∈ checkpoint.directories)
    {selected : List (Text × CatalogCheckpointDirectory)}
    (h : selectDirectories checkpoint.directories root.directoryId = .ok selected) (identity : Text) :
    identity ∈ selected.map Prod.fst ↔ Below checkpoint.directories root.directoryId identity := by
  obtain ⟨hstart, _, hexpanded⟩ := Worklist.walk_collects h
  have hlisted : ∀ visit ∈ selected, Below checkpoint.directories root.directoryId visit.1 := by
    refine Worklist.walk_invariant (Below checkpoint.directories root.directoryId) ?_ h ?_ (by simp)
    · intro item output children hbelow hexpand child hchild
      obtain ⟨directory, hdirectory, rfl⟩ := hbelow.listed hwf ⟨root, hroot, rfl⟩
      rw [expandProjection_eq_ok hwf hdirectory, Except.ok.injEq, Prod.mk.injEq] at hexpand
      rw [← hexpand.2] at hchild
      exact hbelow.tail ⟨directory, hdirectory, rfl, List.mem_reverse.mp hchild⟩
    · intro item hitem
      rw [List.mem_singleton.mp hitem]
      exact .refl
  constructor
  · intro hmem
    obtain ⟨visit, hvisit, rfl⟩ := List.mem_map.mp hmem
    exact hlisted visit hvisit
  · intro hbelow
    -- induction on the descent: a selected directory has had all its children pushed
    induction hbelow with
    | refl =>
        obtain ⟨output, houtput⟩ := hstart _ (List.mem_singleton.mpr rfl)
        exact List.mem_map_of_mem houtput
    | tail habove hlink ih =>
        obtain ⟨directory, hdirectory, rfl, hchild⟩ := hlink
        obtain ⟨⟨_, output⟩, hvisit, rfl⟩ := List.mem_map.mp ih
        obtain ⟨children, hexpand, hchildren⟩ := (hexpanded _ hvisit).resolve_left (by simp)
        rw [expandProjection_eq_ok hwf hdirectory, Except.ok.injEq, Prod.mk.injEq] at hexpand
        obtain ⟨found, hfound⟩ := hchildren _ (hexpand.2 ▸ List.mem_reverse.mpr hchild)
        exact List.mem_map_of_mem hfound

theorem detachRoot_eq_ok {directories : List CatalogCheckpointDirectory} {root : Text}
    (hnodup : (directories.map CatalogCheckpointDirectory.directoryId).Nodup)
    (hroot : root ∈ directories.map CatalogCheckpointDirectory.directoryId) :
    detachRoot root directories = .ok (directories.map (·.viewedFrom root)) := by
  induction directories with
  | nil => simp at hroot
  | cons directory directories ih =>
      simp only [List.map_cons, List.nodup_cons] at hnodup
      by_cases hhead : directory.directoryId = root
      · subst hhead
        have htail : directories.map (·.viewedFrom directory.directoryId) = directories := by
          refine (List.map_congr_left fun other hother => ?_).trans (List.map_id _)
          rw [CatalogCheckpointDirectory.viewedFrom, if_neg]
          · rfl
          · exact fun hsame => hnodup.1 (hsame ▸ List.mem_map_of_mem hother)
        rw [List.map_cons, htail]
        simp [detachRoot, CatalogCheckpointDirectory.viewedFrom]
      · have htail := ih hnodup.2 (by simpa [Ne.symm hhead] using hroot)
        rw [List.map_cons, detachRoot, htail]
        simp [hhead, CatalogCheckpointDirectory.viewedFrom]

end Descent

/-! ### The view is a rooted tree -/

section View

variable {prims : Primitives} {checkpoint : CatalogCheckpoint} (hwf : WellFormedCheckpoint prims checkpoint)
  {root : CatalogCheckpointDirectory} (hroot : root ∈ checkpoint.directories)

theorem projection_sublist (checkpoint : CatalogCheckpoint) (root : CatalogCheckpointDirectory) :
    ((projection checkpoint root).directories.map CatalogCheckpointDirectory.content).Sublist
      (checkpoint.directories.map CatalogCheckpointDirectory.content) := by
  have hkept : (projection checkpoint root).directories.map CatalogCheckpointDirectory.content =
      (subtree checkpoint.directories root.directoryId).map CatalogCheckpointDirectory.content := by
    rw [projection, List.map_map]
    exact List.map_congr_left fun directory _ =>
      CatalogCheckpointDirectory.viewedFrom_content directory root.directoryId
  rw [hkept]
  exact (subtree_sublist _ _).map _

include hroot in
theorem root_mem_projection : root.detached ∈ (projection checkpoint root).directories :=
  mem_projection.mpr ⟨root, hroot, .refl, if_pos rfl⟩

include hwf in
theorem projection_order (root : CatalogCheckpointDirectory) : KeyOrder.StrictlyOrdered CatalogCheckpointDirectory.directoryId
    (projection checkpoint root).directories := by
  have hsource : (checkpoint.directories.map CatalogCheckpointDirectory.content).Pairwise
      fun left right => left.directoryId < right.directoryId := List.pairwise_map.mpr hwf.directoryOrder
  have hview := hsource.sublist (projection_sublist checkpoint root)
  rwa [List.pairwise_map] at hview

include hwf in
/-- Below the root the view has the links of the source, with parents and names unchanged. -/
theorem projection_linked {above : CatalogCheckpointDirectory} (habove : above ∈ checkpoint.directories)
    (hbelow : Below checkpoint.directories root.directoryId above.directoryId) {entry : CatalogCheckpointEntry}
    (hentry : entry ∈ above.entries) (hkind : entry.kind = .directory) :
    ∃ child ∈ checkpoint.directories, child ∈ (projection checkpoint root).directories ∧ Links above entry child := by
  obtain ⟨child, hchild, hlink⟩ := hwf.tree.linked above habove entry hentry hkind
  have hstep := hlink.linksChild habove hentry hkind
  have hother : child.directoryId ≠ root.directoryId := by
    intro hsame
    exact hwf.not_linksChild_of_below hbelow (hsame ▸ hstep)
  exact ⟨child, hchild, mem_projection.mpr ⟨child, hchild, hbelow.tail hstep, if_neg hother⟩, hlink⟩

theorem linksChild_projection_iff {parent child : Text} :
    LinksChild (projection checkpoint root).directories parent child ↔
      Below checkpoint.directories root.directoryId parent ∧ LinksChild checkpoint.directories parent child := by
  constructor
  · rintro ⟨directory, hdirectory, rfl, hchild⟩
    obtain ⟨source, hsource, hbelow, rfl⟩ := mem_projection.mp hdirectory
    exact ⟨by simpa using hbelow, source, hsource, by simp, by simpa using hchild⟩
  · rintro ⟨hbelow, source, hsource, rfl, hchild⟩
    exact ⟨_, mem_projection.mpr ⟨source, hsource, hbelow, rfl⟩, by simp, by simpa using hchild⟩

theorem below_projection_iff {upper lower : Text}
    (hupper : Below checkpoint.directories root.directoryId upper) :
    Below (projection checkpoint root).directories upper lower ↔ Below checkpoint.directories upper lower := by
  constructor
  · intro hbelow
    exact Relation.ReflTransGen.mono (fun _ _ hlink => (linksChild_projection_iff.mp hlink).2) _ _ hbelow
  · intro hbelow
    induction hbelow with
    | refl => exact .refl
    | tail habove hlink ih => exact ih.tail (linksChild_projection_iff.mpr ⟨hupper.trans habove, hlink⟩)

theorem Reaches.of_projection {path front : List Text} {target : Text}
    (h : Reaches (projection checkpoint root) path target) (hfront : Reaches checkpoint front root.directoryId) :
    Reaches checkpoint (front ++ path) target := by
  induction h with
  | root => simpa [projection] using hfront
  | link _ hdirectory hentry hkind hchild ih =>
      obtain ⟨source, hsource, _, rfl⟩ := mem_projection.mp hdirectory
      rw [CatalogCheckpointDirectory.viewedFrom_entries] at hentry
      rw [CatalogCheckpointDirectory.viewedFrom_directoryId] at ih
      rw [← List.append_assoc]
      exact ih.link hsource hentry hkind hchild

theorem Below.reaches_projection {target : Text} (h : Below checkpoint.directories root.directoryId target) :
    ∃ path, Reaches (projection checkpoint root) path target := by
  induction h with
  | refl => exact ⟨[], .root⟩
  | tail habove hlink ih =>
      obtain ⟨path, hpath⟩ := ih
      obtain ⟨directory, hdirectory, rfl, hchild⟩ := linksChild_projection_iff.mpr ⟨habove, hlink⟩
      obtain ⟨entry, hentry, hkind, hidentity⟩ := mem_directoryLinks.mp hchild
      exact ⟨_, hpath.link hdirectory hentry hkind hidentity⟩

include hwf hroot in
theorem projection_tree : RootedTree (projection checkpoint root) := by
  refine ⟨⟨root.detached, root_mem_projection hroot, rfl, rfl, rfl, rfl⟩, ?_, ?_⟩
  · intro directory hdirectory entry hentry hkind
    obtain ⟨source, hsource, hbelow, rfl⟩ := mem_projection.mp hdirectory
    rw [CatalogCheckpointDirectory.viewedFrom_entries] at hentry
    obtain ⟨child, _, hchild, hlink⟩ := projection_linked hwf hsource hbelow hentry hkind
    exact ⟨child, hchild, hlink.identity, by simpa using hlink.parent, hlink.name, hlink.dataRoot⟩
  · intro directory hdirectory
    obtain ⟨source, hsource, hbelow, rfl⟩ := mem_projection.mp hdirectory
    rw [CatalogCheckpointDirectory.viewedFrom_directoryId]
    obtain ⟨path, hpath⟩ := hbelow.reaches_projection
    obtain ⟨front, hfront, _⟩ := hwf.tree.reachedOnce root hroot
    obtain ⟨full, _, honly⟩ := hwf.tree.reachedOnce source hsource
    refine ⟨path, hpath, fun other hother => ?_⟩
    have hsame := (honly _ (hother.of_projection hfront)).trans (honly _ (hpath.of_projection hfront)).symm
    exact List.append_cancel_left hsame

include hwf hroot in
theorem projection_header : WellFormedHeader (projection checkpoint root) := by
  have hnode := hwf.directory hroot
  have hsublist := projection_sublist checkpoint root
  have hentries : ((projection checkpoint root).directories.map fun directory => directory.entries.length).sum ≤
      (checkpoint.directories.map fun directory => directory.entries.length).sum := by
    have hsum := (hsublist.map fun content => content.entries.length).sum_le_sum (by simp)
    rwa [List.map_map, List.map_map] at hsum
  have hlength : (projection checkpoint root).directories.length ≤ checkpoint.directories.length := by
    simpa using hsublist.length_le
  exact
    { schema := hwf.header.schema
      revision := hwf.header.revision
      created := hwf.header.created
      parentRevision := hwf.header.parentRevision
      filesystem := hwf.header.filesystem
      rootDirectory := hnode.identity
      rootData := hnode.rootIdentity
      nonempty := List.ne_nil_of_mem (root_mem_projection hroot)
      directoryBound := hlength.trans hwf.header.directoryBound
      entryBound := hentries.trans hwf.header.entryBound }

include hwf hroot in
/-- The view of a rooted tree below any of its directories is a well-formed checkpoint. -/
theorem projection_wellFormed : WellFormedCheckpoint prims (projection checkpoint root) where
  header := projection_header hwf hroot
  directoryOrder := projection_order hwf root
  entryOrder := by
    intro directory hdirectory
    obtain ⟨source, hsource, _, rfl⟩ := mem_projection.mp hdirectory
    rw [CatalogCheckpointDirectory.viewedFrom_entries]
    exact hwf.entryOrder source hsource
  tree := projection_tree hwf hroot
  roots := by
    intro directory hdirectory
    obtain ⟨source, hsource, _, rfl⟩ := mem_projection.mp hdirectory
    rw [CatalogCheckpointDirectory.viewedFrom_entries, CatalogCheckpointDirectory.viewedFrom_dataRoot]
    exact hwf.roots source hsource

include hwf hroot in
theorem projectCatalogCheckpoint_eq_projection :
    projectCatalogCheckpoint prims checkpoint root.directoryId = .ok (projection checkpoint root) := by
  obtain ⟨selected, hselected⟩ := selectDirectories_succeeds hwf hroot
  have hmem := mem_selectDirectories hwf hroot hselected
  have hfound : findDirectory checkpoint.directories root.directoryId = some root :=
    (findDirectory_eq_some hwf.directoryOrder).mpr ⟨hroot, rfl⟩
  have hfilter : (checkpoint.directories.filter fun directory =>
      (selected.map Prod.fst).contains directory.directoryId) =
        subtree checkpoint.directories root.directoryId := by
    classical
    refine List.filter_congr fun directory _ => ?_
    rw [Bool.eq_iff_iff, List.contains_iff_mem, decide_eq_true_iff]
    exact hmem directory.directoryId
  have hnodup : ((subtree checkpoint.directories root.directoryId).map
      CatalogCheckpointDirectory.directoryId).Nodup :=
    hwf.directoryOrder.nodup.sublist ((subtree_sublist _ _).map _)
  have hdetach := detachRoot_eq_ok hnodup (List.mem_map_of_mem (mem_subtree.mpr ⟨hroot, .refl⟩))
  have hvalid := validate_of_wellFormed (projection_wellFormed hwf hroot)
  rw [projectCatalogCheckpoint, validate_of_wellFormed hwf, ok_bind, decodeHex_bind_eq_ok, hfound, some_orFail, ok_bind,
    hselected, ok_bind, hfilter, hdetach, ok_bind]
  refine ⟨(hwf.directory hroot).identity, ?_⟩
  change (validateCatalogCheckpoint prims (projection checkpoint root) >>= fun _ => .ok (projection checkpoint root)) = _
  rw [hvalid, ok_bind]

end View

/-! ### Laws of projection -/

section Laws

variable {prims : Primitives} {checkpoint : CatalogCheckpoint} (hwf : WellFormedCheckpoint prims checkpoint)

/-- A view is determined by the directories it lists: both lists are in canonical order. -/
theorem projection_congr {left right : CatalogCheckpoint} {root root' : CatalogCheckpointDirectory}
    (hleft : WellFormedCheckpoint prims left) (hright : WellFormedCheckpoint prims right)
    (hheader : SameHeader left right) (hidentity : root.directoryId = root'.directoryId)
    (hdata : root.dataRoot = root'.dataRoot)
    (hmem : ∀ directory, directory ∈ (projection left root).directories ↔
      directory ∈ (projection right root').directories) : projection left root = projection right root' := by
  have hleftOrder := projection_order hleft root
  have hrightOrder := projection_order hright root'
  have hperm := (List.perm_ext_iff_of_nodup (List.Nodup.of_map _ hleftOrder.nodup)
    (List.Nodup.of_map _ hrightOrder.nodup)).mpr hmem
  have hdirectories := hleftOrder.eq_of_perm hrightOrder hperm
  obtain ⟨hschema, hfilesystem, hrevision, hparent, hcreated⟩ := hheader
  simp only [projection, CatalogCheckpoint.mk.injEq] at hdirectories ⊢
  exact ⟨hschema, hfilesystem, hrevision, hparent, hidentity, hdata, hcreated, hdirectories⟩

include hwf in
theorem projection_root {root : CatalogCheckpointDirectory} (hroot : root ∈ checkpoint.directories)
    (hrootId : root.directoryId = checkpoint.rootDirectoryId) : projection checkpoint root = checkpoint := by
  obtain ⟨node, hnode, hid, horphan, hname, hdata⟩ := hwf.tree.root
  obtain rfl := hwf.directoryOrder.eq_of_key hnode hroot (hid.trans hrootId.symm)
  have hall : subtree checkpoint.directories node.directoryId = checkpoint.directories := by
    refine List.filter_eq_self.mpr fun directory hdirectory => ?_
    simpa [hid] using hwf.below_root hdirectory
  have hsame : checkpoint.directories.map (·.viewedFrom node.directoryId) = checkpoint.directories := by
    refine (List.map_congr_left fun directory hdirectory => ?_).trans (List.map_id _)
    by_cases hself : directory.directoryId = node.directoryId
    · obtain rfl := hwf.directoryOrder.eq_of_key hdirectory hnode hself
      rw [CatalogCheckpointDirectory.viewedFrom, if_pos rfl, CatalogCheckpointDirectory.detached, ← horphan, ← hname]
      rfl
    · rw [CatalogCheckpointDirectory.viewedFrom, if_neg hself]
      rfl
  rw [projection, hall, hsame, hid, hdata]

include hwf in
theorem projection_projection {upper lower : CatalogCheckpointDirectory} (hupper : upper ∈ checkpoint.directories)
    (hbelow : Below checkpoint.directories upper.directoryId lower.directoryId) :
    projection (projection checkpoint upper) (lower.viewedFrom upper.directoryId) = projection checkpoint lower := by
  refine projection_congr (projection_wellFormed hwf hupper) hwf ⟨rfl, rfl, rfl, rfl, rfl⟩ (by simp) (by simp)
    fun directory => ?_
  -- only the upper root has lost its name, and it is below the lower one only when they are the same
  have hviewed : ∀ source : CatalogCheckpointDirectory, Below checkpoint.directories lower.directoryId source.directoryId →
      (source.viewedFrom upper.directoryId).viewedFrom lower.directoryId = source.viewedFrom lower.directoryId := by
    intro source hsource
    by_cases hself : source.directoryId = upper.directoryId
    · have hsame := hwf.below_antisymm hbelow (hself ▸ hsource)
      simp [CatalogCheckpointDirectory.viewedFrom, hself, hsame, CatalogCheckpointDirectory.detached]
    · rw [show source.viewedFrom upper.directoryId = source from if_neg hself]
  simp only [mem_projection, CatalogCheckpointDirectory.viewedFrom_directoryId]
  constructor
  · rintro ⟨_, ⟨source, hsource, _, rfl⟩, hlower, rfl⟩
    rw [below_projection_iff hbelow, CatalogCheckpointDirectory.viewedFrom_directoryId] at hlower
    exact ⟨source, hsource, hlower, (hviewed source hlower).symm⟩
  · rintro ⟨source, hsource, hlower, rfl⟩
    refine ⟨_, ⟨source, hsource, hbelow.trans hlower, rfl⟩, ?_, hviewed source hlower⟩
    rw [below_projection_iff hbelow, CatalogCheckpointDirectory.viewedFrom_directoryId]
    exact hlower

theorem mem_subtreeContent {root : Text} {content : DirectoryContent} :
    content ∈ subtreeContent checkpoint root ↔ ∃ directory ∈ checkpoint.directories,
      Below checkpoint.directories root directory.directoryId ∧ directory.content = content := Iff.rfl

/-- The contents of a subtree determine its directories as the view lists them. -/
theorem mem_projection_of_agree {left right : CatalogCheckpoint} (hleft : WellFormedCheckpoint prims left)
    (hright : WellFormedCheckpoint prims right) {root root' : CatalogCheckpointDirectory}
    (hidentity : root.directoryId = root'.directoryId)
    (hagree : subtreeContent left root.directoryId ⊆ subtreeContent right root.directoryId)
    {directory : CatalogCheckpointDirectory} (hdirectory : directory ∈ (projection left root).directories) :
    directory ∈ (projection right root').directories := by
  obtain ⟨source, hsource, hbelow, rfl⟩ := mem_projection.mp hdirectory
  obtain ⟨twin, htwin, htwinBelow, hcontent⟩ := hagree ⟨source, hsource, hbelow, rfl⟩
  have hid : twin.directoryId = source.directoryId := congrArg DirectoryContent.directoryId hcontent
  refine mem_projection.mpr ⟨twin, htwin, hidentity ▸ htwinBelow, ?_⟩
  suffices hsame : source.directoryId ≠ root.directoryId → twin = source by
    by_cases hself : source.directoryId = root.directoryId
    · obtain ⟨twinId, twinParent, twinName, twinRoot, twinEntries⟩ := twin
      obtain ⟨sourceId, sourceParent, sourceName, sourceRoot, sourceEntries⟩ := source
      simp_all [CatalogCheckpointDirectory.content, CatalogCheckpointDirectory.viewedFrom,
        CatalogCheckpointDirectory.detached]
    · rw [hsame hself, ← hidentity]
  intro hother
  -- below the root the parent and the name are those of the last link, which the contents above determine
  obtain ⟨above, habove, hlink⟩ := hbelow.cases_tail.resolve_left hother
  obtain ⟨parent, hparent, entry, hentry, node, hnode, rfl, hnodeId, hkind, hlinks⟩ := hlink.links hleft
  obtain rfl := hleft.directoryOrder.eq_of_key hnode hsource hnodeId
  obtain ⟨parentTwin, hparentTwin, _, hparentContent⟩ := hagree ⟨parent, hparent, habove, rfl⟩
  have hparentId : parentTwin.directoryId = parent.directoryId := congrArg DirectoryContent.directoryId hparentContent
  have hentries : parentTwin.entries = parent.entries := congrArg DirectoryContent.entries hparentContent
  obtain ⟨child, hchild, hchildLinks⟩ := hright.tree.linked parentTwin hparentTwin entry (hentries ▸ hentry) hkind
  have hchildId : child.directoryId = twin.directoryId :=
    (Option.some.inj (hchildLinks.identity.symm.trans hlinks.identity)).trans hid.symm
  obtain rfl := hright.directoryOrder.eq_of_key hchild htwin hchildId
  have hparents := hchildLinks.parent.trans ((congrArg some hparentId).trans hlinks.parent.symm)
  have hnames := hchildLinks.name.trans hlinks.name.symm
  obtain ⟨childId, childParent, childName, childRoot, childEntries⟩ := child
  obtain ⟨nodeId, nodeParent, nodeName, nodeRoot, nodeEntries⟩ := node
  simp_all [CatalogCheckpointDirectory.content]

/-- What a projection promises about a checkpoint and about every other checkpoint with the same subtree. -/
structure ProjectionLaws (prims : Primitives) (checkpoint : CatalogCheckpoint) : Prop where
  /-- Every listed directory can be projected to; the view is valid and lists its closure, content unchanged. -/
  succeeds : ∀ root ∈ checkpoint.directories, ∃ projected,
    projectCatalogCheckpoint prims checkpoint root.directoryId = .ok projected ∧
    validateCatalogCheckpoint prims projected = .ok () ∧ SameHeader projected checkpoint ∧
    projected.rootDirectoryId = root.directoryId ∧ projected.rootDataRoot = root.dataRoot ∧
    ∀ content, content ∈ projected.directories.map CatalogCheckpointDirectory.content ↔
      content ∈ subtreeContent checkpoint root.directoryId
  identity : projectCatalogCheckpoint prims checkpoint checkpoint.rootDirectoryId = .ok checkpoint
  composition : ∀ upper ∈ checkpoint.directories, ∀ lower,
    Below checkpoint.directories upper.directoryId lower → ∀ projected,
    projectCatalogCheckpoint prims checkpoint upper.directoryId = .ok projected →
      projectCatalogCheckpoint prims projected lower = projectCatalogCheckpoint prims checkpoint lower
  noninterference : ∀ other, validateCatalogCheckpoint prims other = .ok () → SameHeader checkpoint other →
    ∀ root ∈ checkpoint.directories,
      subtreeContent checkpoint root.directoryId = subtreeContent other root.directoryId →
      projectCatalogCheckpoint prims checkpoint root.directoryId =
        projectCatalogCheckpoint prims other root.directoryId

/-- Projection of a valid checkpoint is total, sound, idempotent along descent, and independent of the surroundings. -/
theorem projectCatalogCheckpoint_laws (prims : Primitives) (checkpoint : CatalogCheckpoint)
    (hvalid : validateCatalogCheckpoint prims checkpoint = .ok ()) : ProjectionLaws prims checkpoint := by
  have hwf := wellFormed_of_validate hvalid
  refine ⟨fun root hroot => ?_, ?_, fun upper hupper lower hlower projected hprojected => ?_,
    fun other hother hheader root hroot hagree => ?_⟩
  · refine ⟨projection checkpoint root, projectCatalogCheckpoint_eq_projection hwf hroot,
      validate_of_wellFormed (projection_wellFormed hwf hroot), ⟨rfl, rfl, rfl, rfl, rfl⟩, rfl, rfl, fun content => ?_⟩
    simp only [List.mem_map, mem_projection, mem_subtreeContent]
    constructor
    · rintro ⟨_, ⟨source, hsource, hbelow, rfl⟩, rfl⟩
      exact ⟨source, hsource, hbelow, by simp⟩
    · rintro ⟨source, hsource, hbelow, rfl⟩
      exact ⟨_, ⟨source, hsource, hbelow, rfl⟩, by simp⟩
  · obtain ⟨root, hroot, hrootId, _⟩ := hwf.tree.root
    rw [← hrootId, projectCatalogCheckpoint_eq_projection hwf hroot, projection_root hwf hroot hrootId]
  · obtain ⟨node, hnode, rfl⟩ := hlower.listed hwf ⟨upper, hupper, rfl⟩
    rw [projectCatalogCheckpoint_eq_projection hwf hupper, Except.ok.injEq] at hprojected
    subst hprojected
    have hlisted : node.viewedFrom upper.directoryId ∈ (projection checkpoint upper).directories :=
      mem_projection.mpr ⟨node, hnode, hlower, rfl⟩
    have htwice := projectCatalogCheckpoint_eq_projection (projection_wellFormed hwf hupper) hlisted
    rw [CatalogCheckpointDirectory.viewedFrom_directoryId] at htwice
    rw [htwice, projectCatalogCheckpoint_eq_projection hwf hnode, projection_projection hwf hupper hlower]
  · have hotherWf := wellFormed_of_validate hother
    have hself : root.content ∈ subtreeContent other root.directoryId := hagree ▸ ⟨root, hroot, .refl, rfl⟩
    obtain ⟨twin, htwin, _, hcontent⟩ := hself
    have hid : root.directoryId = twin.directoryId := (congrArg DirectoryContent.directoryId hcontent).symm
    have hdata : root.dataRoot = twin.dataRoot := (congrArg DirectoryContent.dataRoot hcontent).symm
    have hview : projection checkpoint root = projection other twin := by
      refine projection_congr hwf hotherWf hheader hid hdata fun directory => ⟨?_, ?_⟩
      · exact mem_projection_of_agree hwf hotherWf hid hagree.subset
      · exact mem_projection_of_agree hotherWf hwf hid.symm (hid ▸ hagree.symm.subset)
    rw [projectCatalogCheckpoint_eq_projection hwf hroot, hview, hid, projectCatalogCheckpoint_eq_projection hotherWf htwin]

/-- The laws for the checkpoint of a renamed subdirectory. -/
theorem projectCatalogCheckpoint_laws_renamed :
    ProjectionLaws Renamed.prims.toPrimitives (Renamed.checkpoint [97] 1) :=
  projectCatalogCheckpoint_laws Renamed.prims.toPrimitives (Renamed.checkpoint [97] 1) (by decide +kernel)

/-! The name under which the subdirectory hangs does not reach its view. -/

example :
    projectCatalogCheckpoint Renamed.prims.toPrimitives (Renamed.checkpoint [97] 1)
        (hexEncode (Bytes.ofByte 15 2).val) =
      projectCatalogCheckpoint Renamed.prims.toPrimitives (Renamed.checkpoint [98] 1)
        (hexEncode (Bytes.ofByte 15 2).val) := by
  decide +kernel

end Laws

end Skydriver
