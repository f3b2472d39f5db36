import Skydriver.Catalog.Delta
import Skydriver.Catalog.Tree
import Skydriver.Integrity.Binding

/-!
# A delta restores its target

Between two well-formed checkpoints of one filesystem root, the delta built from base to target and applied to the
base gives back the target itself.  A node that the delta omits is present in the base under the same identity and data
root; the binding theorem turns the equal root into equal entries, so only its parent and name can be stale, and those
are derived again from the links of the target.
-/

namespace Skydriver

open Checked

/-- Every byte string hashed for a directory root of the checkpoint. -/
def checkpointPreimages (prims : Primitives) (checkpoint : CatalogCheckpoint) : List (List UInt8) :=
  checkpoint.directories.flatMap fun directory =>
    match Checked.traverse merkleEntry directory.entries with
    | .ok committed => directoryRootPreimages prims committed
    | .error _ => []

theorem mem_checkpointPreimages {prims : Primitives} {checkpoint : CatalogCheckpoint}
    {directory : CatalogCheckpointDirectory} (hdirectory : directory ∈ checkpoint.directories)
    {committed : List DirectoryMerkleEntry} (hcommitted : Checked.traverse merkleEntry directory.entries = .ok committed)
    {bytes : List UInt8} (hbytes : bytes ∈ directoryRootPreimages prims committed) :
    bytes ∈ checkpointPreimages prims checkpoint := by
  refine List.mem_flatMap.mpr ⟨directory, hdirectory, ?_⟩
  rw [hcommitted]
  exact hbytes

theorem CommitsTo.binding {prims : Primitives} {hashed : Set (List UInt8)} (hcollision : hashed.InjOn prims.sha256)
    {dataRoot : Text} {entries entries' : List CatalogCheckpointEntry} (h : CommitsTo prims dataRoot entries)
    (h' : CommitsTo prims dataRoot entries')
    (horder : KeyOrder.StrictlyOrdered CatalogCheckpointEntry.name entries)
    (horder' : KeyOrder.StrictlyOrdered CatalogCheckpointEntry.name entries')
    (hmem : ∀ committed, Checked.traverse merkleEntry entries = .ok committed →
      ∀ bytes ∈ directoryRootPreimages prims committed, bytes ∈ hashed)
    (hmem' : ∀ committed, Checked.traverse merkleEntry entries' = .ok committed →
      ∀ bytes ∈ directoryRootPreimages prims committed, bytes ∈ hashed) : entries = entries' := by
  obtain ⟨committed, root, rfl, hroot, hspelling⟩ := h
  obtain ⟨committed', root', rfl, hroot', hspelling'⟩ := h'
  obtain rfl : root = root' := Bytes.ext (hexEncode_injective (hspelling.symm.trans hspelling'))
  have htraverse : ∀ values, directoryMerkleRoot prims values = .ok root →
      Checked.traverse merkleEntry (values.map catalogEntry) = .ok values := by
    intro values hvalues
    obtain ⟨_, hvalid, _⟩ := directoryMerkleRoot_succeeds_iff.mp ⟨root, hvalues⟩
    exact traverse_merkleEntry_eq_ok.mpr
      ⟨rfl, fun entry hentry => validateDirectoryEntry_nonzero (hvalid entry hentry)⟩
  have hperm := directoryMerkleRoot_binding hcollision hroot hroot' (hmem _ (htraverse _ hroot))
    (hmem' _ (htraverse _ hroot'))
  exact horder.eq_of_perm horder' (hperm.map catalogEntry)

/-! ### Standalone validity of a delta -/

theorem validateCatalogDirectory_eq_ok {prims : Primitives} {directory : CatalogCheckpointDirectory}
    (h : WellFormedDirectory prims directory) :
    validateCatalogDirectory prims directory = .ok directory.entries.length := by
  obtain ⟨root, hroot, hentries⟩ := (decode_validateEntries_iff "catalog directory root").mpr
    ⟨h.rootIdentity, h.entryOrder, h.root⟩
  rw [validateCatalogDirectory, decodeHex_bind_eq_ok, validateParent_eq_ok.mpr h.parent, ok_bind, hroot, ok_bind,
    hentries, ok_bind]
  exact ⟨h.identity, rfl⟩

theorem validateDeltaDirectories_eq_ok {prims : Primitives} {entryCount : Nat}
    {directories : List CatalogCheckpointDirectory}
    (hall : ∀ directory ∈ directories, WellFormedDirectory prims directory)
    (hsum : entryCount + (directories.map fun directory => directory.entries.length).sum ≤ maximumCatalogEntries) :
    validateDeltaDirectories prims entryCount directories = .ok () := by
  induction directories generalizing entryCount with
  | nil => rfl
  | cons directory directories ih =>
      obtain ⟨hdirectory, hall⟩ := List.forall_mem_cons.mp hall
      rw [List.map_cons, List.sum_cons] at hsum
      rw [validateDeltaDirectories, validateCatalogDirectory_eq_ok hdirectory, ok_bind, ensure_bind_eq_ok,
        decide_eq_true_eq]
      exact ⟨by omega, ih hall (by omega)⟩

theorem wellFormed_of_validateCatalogDirectory {prims : Primitives} {directory : CatalogCheckpointDirectory}
    {count : Nat} (h : validateCatalogDirectory prims directory = .ok count) : WellFormedDirectory prims directory := by
  rw [validateCatalogDirectory, decodeHex_bind_eq_ok, bind_eq_ok] at h
  obtain ⟨hidentity, _, hparent, h⟩ := h
  obtain ⟨root, hroot, h⟩ := bind_eq_ok.mp h
  obtain ⟨_, hentries, _⟩ := bind_eq_ok.mp h
  obtain ⟨hrootIdentity, horder, hcommits⟩ := (decode_validateEntries_iff _).mp ⟨root, hroot, hentries⟩
  exact ⟨hidentity, validateParent_eq_ok.mp hparent, hrootIdentity, horder, hcommits⟩

theorem wellFormed_of_validateDeltaDirectories {prims : Primitives} {entryCount : Nat}
    {directories : List CatalogCheckpointDirectory} (h : validateDeltaDirectories prims entryCount directories = .ok ()) :
    ∀ directory ∈ directories, WellFormedDirectory prims directory := by
  induction directories generalizing entryCount with
  | nil => simp
  | cons directory directories ih =>
      rw [validateDeltaDirectories] at h
      obtain ⟨count, hcount, h⟩ := bind_eq_ok.mp h
      exact List.forall_mem_cons.mpr
        ⟨wellFormed_of_validateCatalogDirectory hcount, ih (ensure_bind_eq_ok.mp h).2⟩

theorem wellFormed_of_validateCatalogDelta {prims : Primitives} {delta : CatalogDelta}
    (h : validateCatalogDelta prims delta = .ok ()) :
    ∀ directory ∈ delta.directories, WellFormedDirectory prims directory := by
  rw [validateCatalogDelta, ensure_bind_eq_ok, decodeHex_bind_eq_ok, decodeHex_bind_eq_ok, decodeHex_bind_eq_ok,
    decodeHex_bind_eq_ok, decodeHex_bind_eq_ok, decodeHex_bind_eq_ok, ensure_bind_eq_ok] at h
  exact wellFormed_of_validateDeltaDirectories h.2.2.2.2.2.2.2.2

/-- An applied delta gives a valid checkpoint whose nodes come from the delta or from the base. -/
theorem applyCatalogDelta_sources {prims : CatalogPrimitives} {base : CatalogCheckpoint} {baseHash : Text}
    {delta : CatalogDelta} {checkpoint : CatalogCheckpoint}
    (h : applyCatalogDelta prims base baseHash delta = .ok checkpoint) :
    validateCatalogDelta prims.toPrimitives delta = .ok () ∧
      validateCatalogCheckpoint prims.toPrimitives checkpoint = .ok () ∧
      ∀ directory ∈ checkpoint.directories, ∃ source ∈ delta.directories ++ base.directories,
        source.directoryId = directory.directoryId ∧ source.dataRoot = directory.dataRoot ∧
        source.entries = directory.entries := by
  simp only [applyCatalogDelta, bind_eq_ok, ensure_eq_ok, Except.ok.injEq] at h
  obtain ⟨_, _, _, hdelta, _, _, _, _, visited, hvisited, _, _, _, hvalid, _, _, rfl⟩ := h
  refine ⟨hdelta, hvalid, fun directory hdirectory => ?_⟩
  have hmember : directory ∈ visited.map Prod.snd := by
    simpa using (KeyOrder.sortByKey_perm _ _).mem_iff.mp hdirectory
  obtain ⟨visit, hvisit, rfl⟩ := List.mem_map.mp hmember
  obtain ⟨children, hexpand, _⟩ := ((Worklist.walk_collects hvisited).2.2 visit hvisit).resolve_left (by simp)
  simp only [expandPending, bind_eq_ok, orFail_eq_ok, Except.ok.injEq, Prod.mk.injEq] at hexpand
  obtain ⟨source, hsource, _, _, _, _, hrestored, _⟩ := hexpand
  refine ⟨source, ?_, by rw [← hrestored]; rfl, by rw [← hrestored]; rfl, by rw [← hrestored]; rfl⟩
  rcases Option.or_eq_some_iff.mp hsource with hfound | ⟨_, hfound⟩
  · exact List.mem_append_left _ (List.mem_of_find?_eq_some hfound)
  · exact List.mem_append_right _ (List.mem_of_find?_eq_some hfound)

section RoundTrip

variable {prims : CatalogPrimitives} {base target : CatalogCheckpoint} (baseHash targetHash : Text)
  (hbase : WellFormedCheckpoint prims.toPrimitives base) (htarget : WellFormedCheckpoint prims.toPrimitives target)

theorem mem_deltaBetween {directory : CatalogCheckpointDirectory} :
    directory ∈ (deltaBetween base baseHash target targetHash).directories ↔
      directory ∈ target.directories ∧ ∀ other ∈ base.directories,
        other.directoryId = directory.directoryId → other.dataRoot ≠ directory.dataRoot := by
  simp [deltaBetween]

theorem deltaBetween_sublist (base target : CatalogCheckpoint) :
    (deltaBetween base baseHash target targetHash).directories.Sublist target.directories := List.filter_sublist

include htarget in
theorem deltaBetween_order : KeyOrder.StrictlyOrdered CatalogCheckpointDirectory.directoryId
    (deltaBetween base baseHash target targetHash).directories :=
  List.Pairwise.sublist (deltaBetween_sublist baseHash targetHash base target) htarget.directoryOrder

include hbase htarget in
theorem deltaBetween_nonempty (hroot : base.rootDirectoryId = target.rootDirectoryId)
    (hdata : base.rootDataRoot ≠ target.rootDataRoot) :
    (deltaBetween base baseHash target targetHash).directories ≠ [] := by
  obtain ⟨root, hrootMem, hrootId, _, _, hrootData⟩ := htarget.tree.root
  obtain ⟨baseRoot, hbaseRoot, hbaseId, _, _, hbaseData⟩ := hbase.tree.root
  refine List.ne_nil_of_mem ((mem_deltaBetween baseHash targetHash).mpr ⟨hrootMem, fun other hother hsame => ?_⟩)
  obtain rfl := hbase.directoryOrder.eq_of_key hother hbaseRoot
    (by rw [hsame, hrootId, hbaseId, hroot])
  rw [hbaseData, hrootData]
  exact hdata

include hbase htarget in
theorem validateCatalogDelta_deltaBetween (hroot : base.rootDirectoryId = target.rootDirectoryId)
    (hrevision : base.revisionId < target.revisionId) (hdata : base.rootDataRoot ≠ target.rootDataRoot)
    (hbaseHash : IsIdentity 32 baseHash) (htargetHash : IsIdentity 32 targetHash) :
    validateCatalogDelta prims.toPrimitives (deltaBetween base baseHash target targetHash) = .ok () := by
  have hheader := htarget.header
  have hsublist := deltaBetween_sublist baseHash targetHash base target
  have hsum := (hsublist.map fun directory => directory.entries.length).sum_le_sum (by simp)
  rw [validateCatalogDelta, ensure_bind_eq_ok, decodeHex_bind_eq_ok, decodeHex_bind_eq_ok, decodeHex_bind_eq_ok,
    decodeHex_bind_eq_ok, decodeHex_bind_eq_ok, decodeHex_bind_eq_ok, ensure_bind_eq_ok, KeyOrder.windowsAscend_iff]
  refine ⟨?_, hheader.filesystem, hheader.rootDirectory, hbase.header.rootData, hheader.rootData, hbaseHash, htargetHash,
    deltaBetween_order baseHash targetHash htarget, validateDeltaDirectories_eq_ok ?_ ?_⟩
  · simp only [Bool.and_eq_true, beq_iff_eq, decide_eq_true_eq, Option.all_eq_true, Bool.not_eq_true',
      List.isEmpty_eq_false_iff]
    exact ⟨⟨⟨⟨⟨⟨⟨rfl, hbase.header.revision⟩, hrevision⟩, hheader.created⟩, hheader.parentRevision⟩, hroot⟩,
      deltaBetween_nonempty baseHash targetHash hbase htarget hroot hdata⟩, hsublist.length_le.trans hheader.directoryBound⟩
  · exact fun directory hdirectory => htarget.directory (hsublist.subset hdirectory)
  · rw [Nat.zero_add]
    exact hsum.trans hheader.entryBound

/-! ### The walk over the target -/

section Walk

variable (hsame : ∀ source ∈ base.directories, ∀ directory ∈ target.directories,
  source.directoryId = directory.directoryId → source.dataRoot = directory.dataRoot →
    source.entries = directory.entries)

def pendingNode (directory : CatalogCheckpointDirectory) : PendingNode where
  directoryId := directory.directoryId
  dataRoot := directory.dataRoot
  parentDirectoryId := directory.parentDirectoryId
  name := directory.name

include hbase htarget hsame in
theorem findAvailable_deltaBetween {directory : CatalogCheckpointDirectory}
    (hdirectory : directory ∈ target.directories) :
    ∃ source, findAvailable base (deltaBetween base baseHash target targetHash) directory.directoryId = some source ∧
      source.dataRoot = directory.dataRoot ∧ (pendingNode directory).restore source = directory := by
  have horder : KeyOrder.StrictlyOrdered CatalogCheckpointDirectory.directoryId
      (deltaBetween base baseHash target targetHash).directories := deltaBetween_order baseHash targetHash htarget
  by_cases hchanged : directory ∈ (deltaBetween base baseHash target targetHash).directories
  · refine ⟨directory, ?_, rfl, rfl⟩
    rw [findAvailable, (findDirectory_eq_some horder).mpr ⟨hchanged, rfl⟩, Option.some_or]
  · have hreused : ∃ source ∈ base.directories, source.directoryId = directory.directoryId ∧
        source.dataRoot = directory.dataRoot := by
      by_contra hnone
      refine hchanged ((mem_deltaBetween baseHash targetHash).mpr ⟨hdirectory, fun other hother hid hdata => hnone ?_⟩)
      exact ⟨other, hother, hid, hdata⟩
    obtain ⟨source, hsource, hid, hdata⟩ := hreused
    have hmissing : findDirectory (deltaBetween base baseHash target targetHash).directories directory.directoryId =
        none := by
      rw [Option.eq_none_iff_forall_ne_some]
      intro other hother
      obtain ⟨hmember, hsame⟩ := (findDirectory_eq_some horder).mp hother
      rw [htarget.directoryOrder.eq_of_key ((deltaBetween_sublist baseHash targetHash base target).subset hmember) hdirectory hsame] at hmember
      exact hchanged hmember
    have hentries := hsame source hsource directory hdirectory hid hdata
    refine ⟨source, ?_, hdata, ?_⟩
    · rw [findAvailable, hmissing, Option.none_or]
      exact (findDirectory_eq_some hbase.directoryOrder).mpr ⟨hsource, hid⟩
    · cases directory
      cases source
      simp_all [PendingNode.restore, pendingNode]

include htarget in
/-- The children pushed for a target node are the pending nodes of its linked directories. -/
theorem pendingChildren_target {directory : CatalogCheckpointDirectory} (hdirectory : directory ∈ target.directories)
    {entries : List CatalogCheckpointEntry} (hentries : entries ⊆ directory.entries) :
    ∃ children, pendingChildren directory entries = .ok children ∧
      children.map PendingNode.directoryId = directoryLinks entries ∧
      ∀ child ∈ children, ∃ node ∈ target.directories, child = pendingNode node ∧
        node.parentDirectoryId = some directory.directoryId := by
  induction entries with
  | nil => exact ⟨[], rfl, rfl, by simp⟩
  | cons entry entries ih =>
      rw [List.cons_subset] at hentries
      obtain ⟨children, hchildren, hids, hnodes⟩ := ih hentries.2
      cases hkind : entry.kind with
      | file =>
          refine ⟨children, ?_, ?_, hnodes⟩
          · simp only [pendingChildren, hkind, hchildren]
          · simp [directoryLinks, hkind, hids]
      | directory =>
          obtain ⟨node, hnode, hlink⟩ := htarget.tree.linked directory hdirectory entry hentries.1 hkind
          refine ⟨pendingNode node :: children, ?_, ?_, List.forall_mem_cons.mpr
            ⟨⟨node, hnode, rfl, hlink.parent⟩, hnodes⟩⟩
          · simp only [pendingChildren, hkind, hlink.identity, Option.orFail, ok_bind, hchildren, pendingNode,
              hlink.parent, hlink.name, hlink.dataRoot]
          · simp [directoryLinks, hkind, hlink.identity, hids, pendingNode]

include hbase htarget hsame in
theorem expandPending_target {directory : CatalogCheckpointDirectory} (hdirectory : directory ∈ target.directories) :
    ∃ children, expandPending base (deltaBetween base baseHash target targetHash) (pendingNode directory) =
        .ok (directory, children) ∧
      children.map PendingNode.directoryId = directoryLinks directory.entries ∧
      ∀ child ∈ children, ∃ node ∈ target.directories, child = pendingNode node ∧
        node.parentDirectoryId = some directory.directoryId := by
  obtain ⟨source, hsource, hdata, hrestored⟩ := findAvailable_deltaBetween baseHash targetHash
    hbase htarget hsame hdirectory
  obtain ⟨children, hchildren, hids, hnodes⟩ := pendingChildren_target htarget hdirectory (List.Subset.refl _)
  refine ⟨children, ?_, hids, hnodes⟩
  rw [expandPending, show (pendingNode directory).directoryId = directory.directoryId from rfl, hsource, Option.orFail,
    ok_bind, show (pendingNode directory).dataRoot = directory.dataRoot from rfl, hdata, beq_self_eq_true, ensure_true,
    ok_bind, hrestored]
  simp only [hchildren, ok_bind]

include hbase htarget hsame in
theorem walkTarget_restores :
    ∃ visited, walkTarget base (deltaBetween base baseHash target targetHash) = .ok visited ∧
      (visited.map Prod.snd).Perm target.directories ∧ ∀ visit ∈ visited, visit.1 = pendingNode visit.2 := by
  obtain ⟨root, hroot, hrootId, horphan, hrootName, hrootData⟩ := htarget.tree.root
  have hexpand := fun directory (hdirectory : directory ∈ target.directories) =>
    expandPending_target baseHash targetHash hbase htarget hsame
      hdirectory
  have hstart : rootPending (deltaBetween base baseHash target targetHash) = pendingNode root := by
    rw [pendingNode, hrootId, horphan, hrootName, hrootData]
    rfl
  obtain ⟨visited, hvisited⟩ : ∃ visited, walkTarget base (deltaBetween base baseHash target targetHash) =
      .ok visited := by
    apply Worklist.walk_complete
      (fun identity => (findDirectory target.directories identity).bind CatalogCheckpointDirectory.parentDirectoryId)
      (fun node => ∃ directory ∈ target.directories, node = pendingNode directory)
    · intro node hnode
      obtain ⟨directory, hdirectory, rfl⟩ := hnode
      obtain ⟨children, hok, hids, hnodes⟩ := hexpand directory hdirectory
      refine ⟨?_, directory, children, hok, hids ▸ htarget.directoryLinks_nodup hdirectory, fun child hchild => ?_⟩
      · obtain ⟨source, hsource, _, hrestored⟩ := findAvailable_deltaBetween baseHash
          targetHash hbase htarget hsame hdirectory
        have hid : source.directoryId = directory.directoryId := congrArg (·.directoryId) hrestored
        rw [show (pendingNode directory).directoryId = source.directoryId from hid.symm]
        refine List.mem_map_of_mem (List.mem_append.mpr ?_)
        rcases Option.or_eq_some_iff.mp hsource with hfound | ⟨_, hfound⟩
        · exact .inr (List.mem_of_find?_eq_some hfound)
        · exact .inl (List.mem_of_find?_eq_some hfound)
      · obtain ⟨other, hother, rfl, hparent⟩ := hnodes child hchild
        refine ⟨⟨other, hother, rfl⟩, ?_⟩
        simp only [pendingNode, (findDirectory_eq_some htarget.directoryOrder).mpr ⟨hother, rfl⟩, Option.bind_some,
          hparent]
    · exact ⟨root, hroot, hstart⟩
    · simp only [hstart, pendingNode, (findDirectory_eq_some htarget.directoryOrder).mpr ⟨hroot, rfl⟩, Option.bind_some,
        horphan]
  -- every visit restored the node it was pushed for
  have hrestored : ∀ visit ∈ visited, visit.2 ∈ target.directories ∧ visit.1 = pendingNode visit.2 ∧
      ∀ child ∈ directoryLinks visit.2.entries, child ∈ visited.map fun visit => visit.1.directoryId := by
    intro visit hvisit
    obtain ⟨directory, hdirectory, hnode⟩ := Worklist.walk_invariant
      (fun node => ∃ directory ∈ target.directories, node = pendingNode directory)
      (by
        rintro node output children ⟨directory, hdirectory, rfl⟩ hok child hchild
        obtain ⟨children', hok', _, hnodes⟩ := hexpand directory hdirectory
        rw [hok] at hok'
        cases hok'
        obtain ⟨other, hother, rfl, _⟩ := hnodes child hchild
        exact ⟨other, hother, rfl⟩) hvisited
      (by simpa using ⟨root, hroot, hstart⟩) (by simp) visit hvisit
    obtain ⟨children, hok, hchildren⟩ := ((Worklist.walk_collects hvisited).2.2 visit hvisit).resolve_left (by simp)
    obtain ⟨children', hok', hids, _⟩ := hexpand directory hdirectory
    rw [hnode, hok'] at hok
    cases hok
    refine ⟨hdirectory, hnode, fun child hchild => ?_⟩
    rw [← hids] at hchild
    obtain ⟨pending, hpending, rfl⟩ := List.mem_map.mp hchild
    obtain ⟨output, houtput⟩ := hchildren pending hpending
    exact List.mem_map_of_mem houtput
  refine ⟨visited, hvisited, ?_, fun visit hvisit => (hrestored visit hvisit).2.1⟩
  have hkeys : visited.map (fun visit => visit.1.directoryId) =
      (visited.map Prod.snd).map CatalogCheckpointDirectory.directoryId := by
    rw [List.map_map]
    refine List.map_congr_left fun visit hvisit => ?_
    rw [(hrestored visit hvisit).2.1]
    rfl
  have hnodup : ((visited.map Prod.snd).map CatalogCheckpointDirectory.directoryId).Nodup :=
    hkeys ▸ Worklist.walk_nodup hvisited (by simp)
  have hall : ∀ directory ∈ target.directories,
      directory.directoryId ∈ visited.map fun visit => visit.1.directoryId := by
    refine htarget.all_reached (· ∈ visited.map fun visit => visit.1.directoryId) ?_ fun directory hdirectory hmet child hchild => ?_
    · obtain ⟨output, houtput⟩ := (Worklist.walk_collects hvisited).1 _ (List.mem_singleton.mpr rfl)
      have hmember := List.mem_map_of_mem (f := fun visit : PendingNode × CatalogCheckpointDirectory =>
        visit.1.directoryId) houtput
      exact hmember
    · obtain ⟨visit, hvisit, hsame⟩ := List.mem_map.mp hmet
      obtain ⟨hmember, hnode, hlinks⟩ := hrestored visit hvisit
      rw [hnode] at hsame
      rw [← htarget.directoryOrder.eq_of_key hmember hdirectory hsame] at hchild
      exact hlinks child hchild
  refine (List.perm_ext_iff_of_nodup (List.Nodup.of_map _ hnodup)
    (List.Nodup.of_map _ htarget.directoryOrder.nodup)).mpr fun directory => ⟨fun hdirectory => ?_, fun hdirectory => ?_⟩
  · obtain ⟨visit, hvisit, rfl⟩ := List.mem_map.mp hdirectory
    exact (hrestored visit hvisit).1
  · obtain ⟨visit, hvisit, hsame⟩ := List.mem_map.mp (hall directory hdirectory)
    obtain ⟨hmember, hnode, _⟩ := hrestored visit hvisit
    rw [hnode] at hsame
    rw [← htarget.directoryOrder.eq_of_key hmember hdirectory hsame]
    exact List.mem_map_of_mem hvisit

end Walk

end RoundTrip

/-- The text is the true hash of the checkpoint's body, and not the all-zero digest that the code refuses. -/
def IsBodyHash (prims : CatalogPrimitives) (checkpoint : CatalogCheckpoint) (hash : Text) : Prop :=
  ∃ body, prims.encodeCheckpoint checkpoint = some body ∧ hash = hexEncode (prims.sha256 body).val ∧
    prims.sha256 body ≠ .zero 32

theorem IsBodyHash.isIdentity {prims : CatalogPrimitives} {checkpoint : CatalogCheckpoint} {hash : Text}
    (h : IsBodyHash prims checkpoint hash) : IsIdentity 32 hash := by
  obtain ⟨body, _, hhash, hnonzero⟩ := h
  exact ⟨_, hnonzero, hhash⟩

theorem IsBodyHash.validate {prims : CatalogPrimitives} {checkpoint : CatalogCheckpoint} {hash : Text}
    (h : IsBodyHash prims checkpoint hash) : validateCheckpointBodySha256 prims checkpoint hash = .ok () := by
  have hidentity := h.isIdentity
  obtain ⟨body, hbody, hhash, _⟩ := h
  rw [validateCheckpointBodySha256, decodeHex_bind_eq_ok, hbody, Option.orFail, ok_bind, ensure_eq_ok, beq_iff_eq]
  exact ⟨hidentity, hhash.symm⟩

/-- Without collisions, nodes of two checkpoints under one content address have the same entries. -/
theorem entries_eq_of_address {prims : Primitives} {base target : CatalogCheckpoint}
    (hbase : WellFormedCheckpoint prims base) (htarget : WellFormedCheckpoint prims target)
    (hcollision : CollisionFree prims (checkpointPreimages prims base ++ checkpointPreimages prims target)) :
    ∀ source ∈ base.directories, ∀ directory ∈ target.directories,
      source.directoryId = directory.directoryId → source.dataRoot = directory.dataRoot →
        source.entries = directory.entries := by
  intro source hsource directory hdirectory _ hdata
  refine CommitsTo.binding hcollision.injOn (hdata ▸ hbase.roots source hsource) (htarget.roots directory hdirectory)
    (hbase.entryOrder source hsource) (htarget.entryOrder directory hdirectory) ?_ ?_
  · exact fun committed hcommitted bytes hbytes =>
      List.mem_append_left _ (mem_checkpointPreimages hsource hcommitted hbytes)
  · exact fun committed hcommitted bytes hbytes =>
      List.mem_append_right _ (mem_checkpointPreimages hdirectory hcommitted hbytes)

/-- Applying the delta from `base` to `target` restores the target, whatever `baseHash` was taken from. -/
theorem applyCatalogDelta_deltaBetween {prims : CatalogPrimitives} {base target : CatalogCheckpoint}
    {baseHash targetHash : Text} (hbase : WellFormedCheckpoint prims.toPrimitives base)
    (htarget : WellFormedCheckpoint prims.toPrimitives target) (hfilesystem : base.filesystemId = target.filesystemId)
    (hroot : base.rootDirectoryId = target.rootDirectoryId) (hrevision : base.revisionId < target.revisionId)
    (hdata : base.rootDataRoot ≠ target.rootDataRoot) (hbaseHash : IsIdentity 32 baseHash)
    (htargetHash : IsBodyHash prims target targetHash)
    (hsame : ∀ source ∈ base.directories, ∀ directory ∈ target.directories,
      source.directoryId = directory.directoryId → source.dataRoot = directory.dataRoot →
        source.entries = directory.entries) :
    applyCatalogDelta prims base baseHash (deltaBetween base baseHash target targetHash) = .ok target := by
  have hdelta := validateCatalogDelta_deltaBetween baseHash targetHash hbase htarget hroot hrevision hdata hbaseHash
    htargetHash.isIdentity
  obtain ⟨visited, hvisited, hperm, hnodes⟩ := walkTarget_restores baseHash targetHash hbase htarget hsame
  have hassembled : assembleCheckpoint (deltaBetween base baseHash target targetHash)
      (visited.map Prod.snd).reverse = target := by
    rw [assembleCheckpoint, KeyOrder.sortByKey_of_perm htarget.directoryOrder
      ((List.reverse_perm _).trans hperm), ← htarget.header.schema]
    rfl
  rw [applyCatalogDelta, validate_of_wellFormed hbase, ok_bind, hdelta, ok_bind, decodeHex_bind_eq_ok,
    ensure_bind_eq_ok, hvisited, ok_bind, ensure_bind_eq_ok, hassembled]
  refine ⟨hbaseHash, ?_, ?_, ?_⟩
  · simp [deltaBetween, hfilesystem]
  · rw [List.all_eq_true]
    intro directory hdirectory
    have hmember := hperm.mem_iff.mpr ((deltaBetween_sublist baseHash targetHash base target).subset hdirectory)
    obtain ⟨visit, hvisit, rfl⟩ := List.mem_map.mp hmember
    rw [List.contains_iff_mem, List.mem_map]
    exact ⟨visit, hvisit, by rw [hnodes visit hvisit]; rfl⟩
  · simp only [validate_of_wellFormed htarget, ok_bind, htargetHash.validate,
      show (deltaBetween base baseHash target targetHash).checkpointSha256 = targetHash from rfl]

/-- Building a delta between two valid checkpoints of one root and applying it to the base restores the target. -/
theorem applyCatalogDelta_buildCatalogDelta (prims : CatalogPrimitives) (base target : CatalogCheckpoint)
    (baseHash targetHash : Text)
    (hbase : validateCatalogCheckpoint prims.toPrimitives base = .ok ())
    (htarget : validateCatalogCheckpoint prims.toPrimitives target = .ok ())
    (hfilesystem : base.filesystemId = target.filesystemId)
    (hroot : base.rootDirectoryId = target.rootDirectoryId)
    (hrevision : base.revisionId < target.revisionId)
    (hdata : base.rootDataRoot ≠ target.rootDataRoot)
    (hbaseHash : IsBodyHash prims base baseHash) (htargetHash : IsBodyHash prims target targetHash)
    (hcollision : CollisionFree prims.toPrimitives
      (checkpointPreimages prims.toPrimitives base ++ checkpointPreimages prims.toPrimitives target)) :
    ∃ delta, buildCatalogDelta prims base baseHash target targetHash = .ok delta ∧
      applyCatalogDelta prims base baseHash delta = .ok target := by
  have hbaseWf := wellFormed_of_validate hbase
  have htargetWf := wellFormed_of_validate htarget
  have hdelta := validateCatalogDelta_deltaBetween baseHash targetHash hbaseWf htargetWf hroot hrevision hdata hbaseHash.isIdentity
    htargetHash.isIdentity
  refine ⟨deltaBetween base baseHash target targetHash, ?_, ?_⟩
  · simp only [buildCatalogDelta, hbase, htarget, hbaseHash.validate, htargetHash.validate, hdelta, ok_bind, hfilesystem,
      hroot, beq_self_eq_true, hrevision, decide_true, Bool.and_self, ensure_true]
  · exact applyCatalogDelta_deltaBetween hbaseWf htargetWf hfilesystem hroot hrevision hdata hbaseHash.isIdentity
      htargetHash (entries_eq_of_address hbaseWf htargetWf hcollision)

/-! A rename of a subdirectory: the delta carries the root only, and the reused child takes its new name from the
link. -/

namespace Renamed

def prims : CatalogPrimitives where
  sha256 := polynomialDigest
  isNfc := fun _ => true
  encodeCheckpoint := fun checkpoint => some (checkpoint.directories.flatMap fun directory => directory.name)

def rootText (entries : List DirectoryMerkleEntry) : Text :=
  match directoryMerkleRoot prims.toPrimitives entries with
  | .ok root => hexEncode root.val
  | .error _ => []

def childRoot : Digest :=
  match directoryMerkleRoot prims.toPrimitives [] with
  | .ok root => root
  | .error _ => .zero 32

def rootEntries (name : Text) : List DirectoryMerkleEntry := [.directory name (.ofByte 15 2) childRoot]

def checkpoint (name : Text) (revisionId : UInt64) : CatalogCheckpoint where
  schema := catalogCheckpointSchema
  filesystemId := hexEncode (Bytes.ofByte 15 9).val
  revisionId
  parentRevisionId := none
  rootDirectoryId := hexEncode (Bytes.ofByte 15 1).val
  rootDataRoot := rootText (rootEntries name)
  createdAt := 1
  directories :=
    [{ directoryId := hexEncode (Bytes.ofByte 15 1).val, parentDirectoryId := none, name := [],
       dataRoot := rootText (rootEntries name), entries := (rootEntries name).map catalogEntry },
     { directoryId := hexEncode (Bytes.ofByte 15 2).val, parentDirectoryId := some (hexEncode (Bytes.ofByte 15 1).val),
       name, dataRoot := hexEncode childRoot.val, entries := [] }]

end Renamed

open Renamed in
theorem applyCatalogDelta_buildCatalogDelta_renamed :
    ∃ delta, buildCatalogDelta prims (checkpoint [97] 1) (hexEncode (prims.sha256 [97]).val) (checkpoint [98] 2)
        (hexEncode (prims.sha256 [98]).val) = .ok delta ∧
      applyCatalogDelta prims (checkpoint [97] 1) (hexEncode (prims.sha256 [97]).val) delta =
        .ok (checkpoint [98] 2) :=
  applyCatalogDelta_buildCatalogDelta prims (checkpoint [97] 1) (checkpoint [98] 2) _ _
    (by decide +kernel) (by decide +kernel) rfl rfl (by decide) (by decide +kernel)
    ⟨[97], by decide +kernel, rfl, by decide +kernel⟩ ⟨[98], by decide +kernel, rfl, by decide +kernel⟩
    (by decide +kernel)

end Skydriver
