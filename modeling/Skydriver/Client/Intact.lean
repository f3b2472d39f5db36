import Skydriver.Client.CatalogStore

/-!
# An intact catalog store

What a reader finds in the files of a store, and when the store is intact: every node file opens at its address, and the
head names a valid checkpoint all of whose nodes are in place.  `Permitted` says when a change of one file does no harm.
Every permitted change keeps the store intact and never takes the head back to an earlier revision.
-/

namespace Skydriver.Client

open Checked CatalogStore

/-! ### What a store holds -/

section Holdings

variable (prims : ClientPrimitives) (cipher : MetadataCache.MetadataCacheCipher)

/-- The node that a reader finds at a content address. -/
def storedNode (files : Files) (directoryId dataRoot : Text) : Option CatalogNode :=
  match loadFrom prims ⟨cipher, true⟩ files .none directoryId dataRoot with
  | .ok found => found
  | .error _ => none

/-- The head that a reader finds. -/
def storedHead (files : Files) : Option CatalogHead :=
  match loadHeadFrom prims ⟨cipher, true⟩ files .none with
  | .ok found => found
  | .error _ => none

/-- The directory is in place under its content address. -/
def Stored (files : Files) (directory : CatalogCheckpointDirectory) : Prop :=
  storedNode prims cipher files directory.directoryId directory.dataRoot = some (checkpointNode directory)

/-- The head and the checkpoint name the same view. -/
structure Names (head : CatalogHead) (checkpoint : CatalogCheckpoint) : Prop where
  filesystem : head.filesystemId = checkpoint.filesystemId
  revision : head.revisionId = checkpoint.revisionId
  rootDirectory : head.rootDirectoryId = checkpoint.rootDirectoryId
  rootData : head.rootDataRoot = checkpoint.rootDataRoot

/-- The head names a valid checkpoint all of whose nodes are in place. -/
structure Complete (files : Files) (head : CatalogHead) (checkpoint : CatalogCheckpoint) : Prop where
  valid : WellFormedCheckpoint prims.toPrimitives checkpoint
  names : Names head checkpoint
  stored : ∀ directory ∈ checkpoint.directories, Stored prims cipher files directory

/-- Every node file opens at its address, and the head is complete. -/
structure Intact (files : Files) : Prop where
  nodes : ∀ path sealed, files.nodes.lookup path = some sealed → ∃ directoryId dataRoot node,
    nodePath directoryId dataRoot = .ok path ∧ storedNode prims cipher files directoryId dataRoot = some node
  head : ∀ sealed, files.head = some sealed → ∃ head checkpoint,
    storedHead prims cipher files = some head ∧ Complete prims cipher files head checkpoint

/-- The content addresses to which directory entries lead from the head. -/
inductive Reachable (files : Files) : Text → Text → Prop where
  | root {head : CatalogHead} (hhead : storedHead prims cipher files = some head) :
      Reachable files head.rootDirectoryId head.rootDataRoot
  | link {directoryId dataRoot child : Text} {node : CatalogNode} {entry : CatalogEntry}
      (hreach : Reachable files directoryId dataRoot)
      (hnode : storedNode prims cipher files directoryId dataRoot = some node) (hentry : entry ∈ node.entries)
      (hkind : entry.kind = .directory) (hchild : entry.childDirectoryId = some child) :
      Reachable files child entry.dataRoot

/-- When a change does no harm. -/
def Permitted : Change → Files → Prop
  | .linkNode path sealed, _ => ∃ directoryId dataRoot node,
      nodePath directoryId dataRoot = .ok path ∧ openNode prims cipher directoryId dataRoot sealed = .ok node ∧
      sealed.length ≤ MetadataCache.maximumEncodedBytes maximumNodeBytes
  | .removeNode path, files => ∀ directoryId dataRoot, Reachable prims cipher files directoryId dataRoot →
      nodePath directoryId dataRoot ≠ .ok path
  | .renameHead sealed, files => ∃ head checkpoint,
      openHead prims cipher sealed = .ok head ∧
      sealed.length ≤ MetadataCache.maximumEncodedBytes maximumHeadBytes ∧
      Complete prims cipher files head checkpoint ∧
      ∀ old, storedHead prims cipher files = some old → old.revisionId < head.revisionId
  | .removeHead, files => files.head = none
  | .renameCursor _, _ => True
  | .removeCursor, _ => True

end Holdings

section Reading

variable {prims : ClientPrimitives} {cipher : MetadataCache.MetadataCacheCipher} {files : Files}

theorem loadFrom_eq_some {store : CatalogStore} {faults : Faults} {directoryId dataRoot : Text} {node : CatalogNode} :
    store.loadFrom prims files faults directoryId dataRoot = .ok (some node) ↔
      store.enabled = true ∧ IsIdentity 16 directoryId ∧ IsIdentity 32 dataRoot ∧ ∃ path sealed,
        nodePath directoryId dataRoot = .ok path ∧ files.nodes.lookup path = some sealed ∧
        faults.nodes path = none ∧ sealed.length ≤ MetadataCache.maximumEncodedBytes maximumNodeBytes ∧
        openNode prims store.cipher directoryId dataRoot sealed = .ok node := by
  have hfault : ∀ fault : Option ReadFault, fault = none ↔ fault ≠ some .inspect ∧ fault ≠ some .read := by
    rintro (_ | _ | _) <;> simp
  unfold loadFrom
  split
  · next henabled =>
      rw [decodeHex_bind_eq_ok, decodeHex_bind_eq_ok, bind_eq_ok]
      simp only [henabled, true_and, ensure_bind_eq_ok, bne_iff_ne, hfault]
      refine and_congr_right fun _ => and_congr_right fun _ => exists_congr fun path => ?_
      cases files.nodes.lookup path with
      | none => simp
      | some sealed =>
          simp only [bind_eq_ok, ensure_eq_ok, bne_iff_ne, decide_eq_true_eq, Except.ok.injEq, Option.some.injEq]
          constructor
          · rintro ⟨hpath, hinspect, _, hbound, _, hread, _, hopen, rfl⟩
            exact ⟨sealed, hpath, rfl, ⟨hinspect, hread⟩, hbound, hopen⟩
          · rintro ⟨_, hpath, rfl, ⟨hinspect, hread⟩, hbound, hopen⟩
            exact ⟨hpath, hinspect, (), hbound, (), hread, node, hopen, rfl⟩
  · next henabled => simp [henabled]

theorem storedNode_eq_some {directoryId dataRoot : Text} {node : CatalogNode} :
    storedNode prims cipher files directoryId dataRoot = some node ↔
      IsIdentity 16 directoryId ∧ IsIdentity 32 dataRoot ∧ ∃ path sealed,
        nodePath directoryId dataRoot = .ok path ∧ files.nodes.lookup path = some sealed ∧
        sealed.length ≤ MetadataCache.maximumEncodedBytes maximumNodeBytes ∧
        openNode prims cipher directoryId dataRoot sealed = .ok node := by
  have hload : storedNode prims cipher files directoryId dataRoot = some node ↔
      loadFrom prims ⟨cipher, true⟩ files .none directoryId dataRoot = .ok (some node) := by
    unfold storedNode
    cases loadFrom prims ⟨cipher, true⟩ files .none directoryId dataRoot <;> simp
  rw [hload, loadFrom_eq_some]
  simp [Faults.none]

theorem storedHead_eq_some {head : CatalogHead} :
    storedHead prims cipher files = some head ↔ ∃ sealed, files.head = some sealed ∧
      sealed.length ≤ MetadataCache.maximumEncodedBytes maximumHeadBytes ∧ openHead prims cipher sealed = .ok head := by
  unfold storedHead loadHeadFrom
  cases files.head with
  | none => simp [Faults.none, ensure]
  | some sealed =>
      by_cases hbound : sealed.length ≤ MetadataCache.maximumEncodedBytes maximumHeadBytes
      · cases hopen : openHead prims cipher sealed <;> simp [Faults.none, ensure, hbound, hopen]
      · simp [Faults.none, ensure, hbound]

theorem storedNode_valid {directoryId dataRoot : Text} {node : CatalogNode}
    (h : storedNode prims cipher files directoryId dataRoot = some node) :
    validateNode prims node directoryId dataRoot = .ok () := by
  obtain ⟨_, _, _, _, _, _, _, hopen⟩ := storedNode_eq_some.mp h
  exact (openNode_valid hopen).1

/-- Two stored nodes share a path only if they share their address. -/
theorem storedNode_address {directoryId dataRoot directoryId' dataRoot' : Text} {path : NodePath}
    (hidentity : IsIdentity 16 directoryId) (hidentity' : IsIdentity 16 directoryId')
    (hpath : nodePath directoryId dataRoot = .ok path) (hpath' : nodePath directoryId' dataRoot' = .ok path) :
    directoryId = directoryId' ∧ dataRoot = dataRoot' :=
  nodePath_injective (hidentity.length_eq.trans hidentity'.length_eq.symm) hpath hpath'

theorem storedNode_of_lookup {after : Files} {directoryId dataRoot : Text} {node : CatalogNode}
    (h : storedNode prims cipher files directoryId dataRoot = some node)
    (hlookup : ∀ path sealed, nodePath directoryId dataRoot = .ok path → files.nodes.lookup path = some sealed →
      after.nodes.lookup path = some sealed) :
    storedNode prims cipher after directoryId dataRoot = some node := by
  obtain ⟨hidentity, hroot, path, sealed, hpath, hfound, hbound, hopen⟩ := storedNode_eq_some.mp h
  exact storedNode_eq_some.mpr ⟨hidentity, hroot, path, sealed, hpath, hlookup path sealed hpath hfound, hbound, hopen⟩

theorem Complete.mono {after : Files} {head : CatalogHead} {checkpoint : CatalogCheckpoint}
    (h : Complete prims cipher files head checkpoint)
    (hstored : ∀ directory ∈ checkpoint.directories, Stored prims cipher files directory →
      Stored prims cipher after directory) : Complete prims cipher after head checkpoint :=
  ⟨h.valid, h.names, fun directory hdirectory => hstored directory hdirectory (h.stored directory hdirectory)⟩

/-! ### What is reachable -/

theorem Complete.of_reachable {head : CatalogHead} {checkpoint : CatalogCheckpoint}
    (h : Complete prims cipher files head checkpoint) (hhead : storedHead prims cipher files = some head)
    {directoryId dataRoot : Text} (hreach : Reachable prims cipher files directoryId dataRoot) :
    ∃ directory ∈ checkpoint.directories, directory.directoryId = directoryId ∧ directory.dataRoot = dataRoot := by
  induction hreach with
  | root hfound =>
      rw [hhead, Option.some.injEq] at hfound
      subst hfound
      obtain ⟨root, hroot, hid, _, _, hdata⟩ := h.valid.tree.root
      exact ⟨root, hroot, hid.trans h.names.rootDirectory.symm, hdata.trans h.names.rootData.symm⟩
  | @link directoryId dataRoot child node entry _ hnode hentry hkind hchild ih =>
      obtain ⟨directory, hdirectory, rfl, rfl⟩ := ih
      have hsame := h.stored directory hdirectory
      rw [Stored, hnode, Option.some.injEq] at hsame
      have hlisted : checkpointEntry entry ∈ directory.entries := by
        rw [← checkpointNode_entries, ← hsame]
        exact List.mem_map_of_mem hentry
      obtain ⟨linked, hlinked, hlink⟩ := h.valid.tree.linked directory hdirectory _ hlisted
        (by simp [checkpointEntry, hkind])
      have hidentity : some child = some linked.directoryId := hchild.symm.trans hlink.identity
      exact ⟨linked, hlinked, (Option.some.inj hidentity).symm, hlink.dataRoot⟩

theorem Complete.reachable {head : CatalogHead} {checkpoint : CatalogCheckpoint}
    (h : Complete prims cipher files head checkpoint) (hhead : storedHead prims cipher files = some head)
    {directory : CatalogCheckpointDirectory} (hdirectory : directory ∈ checkpoint.directories) :
    Reachable prims cipher files directory.directoryId directory.dataRoot := by
  have hall := h.valid.all_reached (fun identity => ∀ listed ∈ checkpoint.directories, listed.directoryId = identity →
    Reachable prims cipher files listed.directoryId listed.dataRoot) ?_ ?_
  · exact hall directory hdirectory directory hdirectory rfl
  · intro listed hlisted hid
    obtain ⟨root, hroot, hrootId, _, _, hdata⟩ := h.valid.tree.root
    obtain rfl := h.valid.directoryOrder.eq_of_key hlisted hroot (hid.trans hrootId.symm)
    rw [hrootId, hdata, ← h.names.rootDirectory, ← h.names.rootData]
    exact .root hhead
  · intro parent hparent hreached child hchild listed hlisted hid
    obtain ⟨entry, hentry, hkind, hidentity⟩ := mem_directoryLinks.mp hchild
    obtain ⟨linked, hlinked, hlink⟩ := h.valid.tree.linked parent hparent entry hentry hkind
    have hsame : some linked.directoryId = some child := hlink.identity.symm.trans hidentity
    obtain rfl := h.valid.directoryOrder.eq_of_key hlisted hlinked (hid.trans (Option.some.inj hsame).symm)
    rw [hlink.dataRoot]
    have hlisted : nodeEntry entry ∈ (checkpointNode parent).entries := List.mem_map_of_mem hentry
    exact .link (hreached parent hparent rfl) (h.stored parent hparent) hlisted (by simp [nodeEntry, hkind])
      hlink.identity

theorem Intact.stored_of_reachable (h : Intact prims cipher files) {directoryId dataRoot : Text}
    (hreach : Reachable prims cipher files directoryId dataRoot) :
    ∃ node, storedNode prims cipher files directoryId dataRoot = some node := by
  obtain ⟨head, hhead⟩ : ∃ head, storedHead prims cipher files = some head := by
    induction hreach with
    | root hhead => exact ⟨_, hhead⟩
    | link _ _ _ _ _ ih => exact ih
  obtain ⟨sealed, hsealed, _⟩ := storedHead_eq_some.mp hhead
  obtain ⟨found, checkpoint, hfound, hcomplete⟩ := h.head sealed hsealed
  obtain ⟨directory, hdirectory, rfl, rfl⟩ := hcomplete.of_reachable hfound hreach
  exact ⟨_, hcomplete.stored directory hdirectory⟩

/-! ### Permitted changes -/

theorem storedNode_insert {path : NodePath} {sealed : List UInt8} (hfree : files.nodes.lookup path = none)
    {directoryId dataRoot : Text} {node : CatalogNode}
    (h : storedNode prims cipher files directoryId dataRoot = some node) :
    storedNode prims cipher { files with nodes := files.nodes.insert path sealed } directoryId dataRoot = some node := by
  refine storedNode_of_lookup h fun found content _ hfound => ?_
  rw [Table.lookup_insert_eq, if_neg]
  · exact hfound
  · rintro rfl
    rw [hfree] at hfound
    cases hfound

theorem storedNode_erase {path : NodePath} {directoryId dataRoot : Text} {node : CatalogNode}
    (h : storedNode prims cipher files directoryId dataRoot = some node)
    (hother : nodePath directoryId dataRoot ≠ .ok path) :
    storedNode prims cipher { files with nodes := files.nodes.erase path } directoryId dataRoot = some node := by
  refine storedNode_of_lookup h fun found content hfound hlookup => ?_
  rw [Table.lookup_erase_eq, if_neg]
  · exact hlookup
  · rintro rfl
    exact hother hfound

theorem storedNode_link {directoryId dataRoot : Text} {node : CatalogNode} {path : NodePath} {sealed : List UInt8}
    (hpath : nodePath directoryId dataRoot = .ok path)
    (hopen : openNode prims cipher directoryId dataRoot sealed = .ok node)
    (hbound : sealed.length ≤ MetadataCache.maximumEncodedBytes maximumNodeBytes) :
    storedNode prims cipher { files with nodes := files.nodes.insert path sealed } directoryId dataRoot = some node := by
  obtain ⟨_, hidentity, hroot, _⟩ := validateNode_eq_ok.mp (openNode_valid hopen).1
  refine storedNode_eq_some.mpr ⟨hidentity, hroot, path, sealed, hpath, ?_, hbound, hopen⟩
  rw [Table.lookup_insert_eq, if_pos rfl]

theorem Intact.link (h : Intact prims cipher files) {path : NodePath} {sealed : List UInt8}
    (hfree : files.nodes.lookup path = none) (hpermitted : Permitted prims cipher (.linkNode path sealed) files) :
    Intact prims cipher { files with nodes := files.nodes.insert path sealed } := by
  obtain ⟨directoryId, dataRoot, node, hpath, hopen, hbound⟩ := hpermitted
  refine ⟨fun found content hfound => ?_, fun content hcontent => ?_⟩
  · rw [Table.lookup_insert_eq] at hfound
    split_ifs at hfound with hsame
    · cases hfound
      exact ⟨directoryId, dataRoot, node, hsame ▸ hpath, storedNode_link hpath hopen hbound⟩
    · obtain ⟨directoryId', dataRoot', node', hpath', hstored⟩ := h.nodes found content hfound
      exact ⟨directoryId', dataRoot', node', hpath', storedNode_insert hfree hstored⟩
  · obtain ⟨head, checkpoint, hhead, hcomplete⟩ := h.head content hcontent
    exact ⟨head, checkpoint, hhead, hcomplete.mono fun _ _ => storedNode_insert hfree⟩

/-- A node that cannot be reached from a complete head is not one of its checkpoint. -/
theorem Complete.erase {head : CatalogHead} {checkpoint : CatalogCheckpoint} {path : NodePath}
    (h : Complete prims cipher files head checkpoint) (hhead : storedHead prims cipher files = some head)
    (hpermitted : Permitted prims cipher (.removeNode path) files) :
    Complete prims cipher { files with nodes := files.nodes.erase path } head checkpoint :=
  h.mono fun _ hdirectory hstored => storedNode_erase hstored (hpermitted _ _ (h.reachable hhead hdirectory))

theorem Intact.erase (h : Intact prims cipher files) {path : NodePath}
    (hpermitted : Permitted prims cipher (.removeNode path) files) :
    Intact prims cipher { files with nodes := files.nodes.erase path } := by
  refine ⟨fun found content hfound => ?_, fun content hcontent => ?_⟩
  · rw [Table.lookup_erase_eq] at hfound
    split_ifs at hfound with hsame
    obtain ⟨directoryId, dataRoot, node, hpath, hstored⟩ := h.nodes found content hfound
    refine ⟨directoryId, dataRoot, node, hpath, storedNode_erase hstored ?_⟩
    rw [hpath]
    exact fun heq => hsame (Except.ok.inj heq)
  · obtain ⟨head, checkpoint, hhead, hcomplete⟩ := h.head content hcontent
    exact ⟨head, checkpoint, hhead, hcomplete.erase hhead hpermitted⟩

theorem Intact.rename (h : Intact prims cipher files) {sealed : List UInt8}
    (hpermitted : Permitted prims cipher (.renameHead sealed) files) :
    Intact prims cipher { files with head := some sealed } := by
  obtain ⟨head, checkpoint, hopen, hbound, hcomplete, _⟩ := hpermitted
  refine ⟨h.nodes, fun content hcontent => ?_⟩
  cases hcontent
  exact ⟨head, checkpoint, storedHead_eq_some.mpr ⟨sealed, rfl, hbound, hopen⟩, hcomplete.mono fun _ _ hstored => hstored⟩

theorem Intact.cursor (h : Intact prims cipher files) (cursor : Option (List UInt8)) :
    Intact prims cipher { files with cursor } := by
  refine ⟨h.nodes, fun sealed hsealed => ?_⟩
  obtain ⟨head, checkpoint, hhead, hcomplete⟩ := h.head sealed hsealed
  exact ⟨head, checkpoint, hhead, hcomplete.mono fun _ _ hstored => hstored⟩

theorem Intact.step (h : Intact prims cipher files) {step : Change} {after : Files} {reply : Reply}
    (hpermitted : Permitted prims cipher step files) (hexecute : step.execute files = some (after, reply)) :
    Intact prims cipher after := by
  match step, hpermitted, hexecute with
  | .linkNode path sealed, hpermitted, hexecute =>
      rw [Change.execute] at hexecute
      split at hexecute
      · cases hexecute
        exact h
      · next hfree =>
          cases hexecute
          exact h.link hfree hpermitted
  | .removeNode path, hpermitted, hexecute =>
      rw [Change.execute] at hexecute
      split at hexecute
      · cases hexecute
        exact h.erase hpermitted
      · cases hexecute
        exact h
  | .renameHead sealed, hpermitted, hexecute =>
      cases hexecute
      exact h.rename hpermitted
  | .removeHead, hpermitted, hexecute =>
      rw [Change.execute, show files.head = none from hpermitted] at hexecute
      cases hexecute
      exact h
  | .renameCursor sealed, _, hexecute =>
      cases hexecute
      exact h.cursor _
  | .removeCursor, _, hexecute =>
      rw [Change.execute] at hexecute
      split at hexecute <;> cases hexecute
      · exact h.cursor none
      · exact h

/-- A permitted change replaces the head by one of a later revision, if at all. -/
theorem storedHead_step {step : Change} {after : Files} {reply : Reply}
    (hpermitted : Permitted prims cipher step files) (hexecute : step.execute files = some (after, reply))
    {old : CatalogHead} (hold : storedHead prims cipher files = some old) :
    ∃ new, storedHead prims cipher after = some new ∧ old.revisionId ≤ new.revisionId := by
  match step, hpermitted, hexecute with
  | .linkNode path sealed, _, hexecute =>
      rw [Change.execute] at hexecute
      split at hexecute <;> cases hexecute <;> exact ⟨old, hold, UInt64.le_refl _⟩
  | .removeNode path, _, hexecute =>
      rw [Change.execute] at hexecute
      split at hexecute <;> cases hexecute <;> exact ⟨old, hold, UInt64.le_refl _⟩
  | .renameHead sealed, hpermitted, hexecute =>
      obtain ⟨head, _, hopen, hbound, _, hlater⟩ := hpermitted
      cases hexecute
      exact ⟨head, storedHead_eq_some.mpr ⟨sealed, rfl, hbound, hopen⟩, UInt64.le_of_lt (hlater old hold)⟩
  | .removeHead, hpermitted, hexecute =>
      rw [Change.execute, show files.head = none from hpermitted] at hexecute
      cases hexecute
      exact ⟨old, hold, UInt64.le_refl _⟩
  | .renameCursor sealed, _, hexecute =>
      cases hexecute
      exact ⟨old, hold, UInt64.le_refl _⟩
  | .removeCursor, _, hexecute =>
      rw [Change.execute] at hexecute
      split at hexecute <;> cases hexecute <;> exact ⟨old, hold, UInt64.le_refl _⟩

end Reading

end Skydriver.Client
