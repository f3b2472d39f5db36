import Skydriver.Integrity.Success

/-!
# What a directory root commits to

As long as SHA-256 does not collide on the byte strings hashed on the way, a directory root determines the entries.
The proof follows the accumulator: two runs over equally many entries build stacks of the same shape, so equal roots
are traced back through the same merges to equal leaves.
-/

namespace Skydriver

open Checked

/-! ### Encodings -/

theorem file_preimage_ne_directory_preimage {rest rest' : List UInt8} :
    directoryFileEntryDomain ++ rest ≠ directoryChildEntryDomain ++ rest' := by
  intro h
  have hbyte := congrArg (fun bytes => bytes[24]?) h
  have hfile : 24 < directoryFileEntryDomain.length := by decide
  have hchild : 24 < directoryChildEntryDomain.length := by decide
  simp only [List.getElem?_append_left hfile, List.getElem?_append_left hchild] at hbyte
  exact absurd hbyte (by decide)

theorem entryPreimage_injective {left right : DirectoryMerkleEntry} (hleft : (entryName left).length < 2 ^ 32)
    (hright : (entryName right).length < 2 ^ 32) (h : entryPreimage left = entryPreimage right) : left = right := by
  cases left with
  | file name stableId versionId sizeBytes dataRoot metadataRoot =>
      cases right with
      | file name' stableId' versionId' sizeBytes' dataRoot' metadataRoot' =>
          obtain ⟨hlength, hfields⟩ := bigEndian_append_inj hleft hright (List.append_cancel_left h)
          obtain ⟨hname, hidentities⟩ := List.append_inj hfields hlength
          obtain ⟨hstable, hversions⟩ := Bytes.append_inj hidentities
          obtain ⟨hversion, hsizes⟩ := Bytes.append_inj hversions
          obtain ⟨hsize, hroots⟩ := bigEndian_append_inj sizeBytes.toNat_lt sizeBytes'.toNat_lt hsizes
          obtain ⟨hdata, hmetadata⟩ := Bytes.append_inj hroots
          rw [hname, hstable, hversion, UInt64.toNat_inj.mp hsize, hdata, Bytes.ext hmetadata]
      | directory name' stableId' dataRoot' => exact absurd h file_preimage_ne_directory_preimage
  | directory name stableId dataRoot =>
      cases right with
      | file name' stableId' versionId' sizeBytes' dataRoot' metadataRoot' =>
          exact absurd h.symm file_preimage_ne_directory_preimage
      | directory name' stableId' dataRoot' =>
          obtain ⟨hlength, hfields⟩ := bigEndian_append_inj hleft hright (List.append_cancel_left h)
          obtain ⟨hname, hidentities⟩ := List.append_inj hfields hlength
          obtain ⟨hstable, hdata⟩ := Bytes.append_inj hidentities
          rw [hname, hstable, Bytes.ext hdata]

/-! ### The bytes hashed on the way to a root -/

namespace DirectoryMerkleAccumulator

/-- The leaf that `push` adds for an entry. -/
def leaf (prims : Primitives) (accumulator : DirectoryMerkleAccumulator) (entry : DirectoryMerkleEntry) :
    FileSubtree :=
  { first := accumulator.entryCount, leaves := 1, digest := prims.sha256 (entryPreimage entry) }

/-- Node bytes hashed by the merge loop of `push`. -/
def pushSubtreePreimages (prims : Primitives) : List FileSubtree → FileSubtree → List (List UInt8)
  | [], _ => []
  | left :: rest, node =>
      if left.leaves = node.leaves then
        nodePreimage directoryNodeDomain left node (left.leaves + node.leaves) ::
          match mergeSubtrees prims directoryNodeDomain left node with
          | .ok merged => pushSubtreePreimages prims rest merged
          | .error _ => []
      else []

/-- Node bytes hashed by the merge loop of `finish`. -/
def foldSubtreesPreimages (prims : Primitives) : FileSubtree → List FileSubtree → List (List UInt8)
  | _, [] => []
  | right, left :: rest =>
      nodePreimage directoryNodeDomain left right (left.leaves + right.leaves) ::
        match mergeSubtrees prims directoryNodeDomain left right with
        | .ok merged => foldSubtreesPreimages prims merged rest
        | .error _ => []

/-- Bytes hashed by `finish`. -/
def finishPreimages (prims : Primitives) (accumulator : DirectoryMerkleAccumulator) : List (List UInt8) :=
  (match accumulator.subtrees with
    | [] => [directoryEmptyDomain]
    | right :: rest => foldSubtreesPreimages prims right rest) ++
  match treeDigest prims accumulator.subtrees with
  | .ok tree => [rootPreimage accumulator.entryCount tree]
  | .error _ => []

/-- Bytes hashed while the entries are pushed in order and the root is finished. -/
def preimages (prims : Primitives) : DirectoryMerkleAccumulator → List DirectoryMerkleEntry → List (List UInt8)
  | accumulator, [] => finishPreimages prims accumulator
  | accumulator, entry :: entries =>
      entryPreimage entry ::
        (pushSubtreePreimages prims accumulator.subtrees (leaf prims accumulator entry) ++
          match push prims accumulator entry with
          | .ok next => preimages prims next entries
          | .error _ => [])

end DirectoryMerkleAccumulator

/-- Every byte string that SHA-256 is applied to in the computation of one directory root. -/
def directoryRootPreimages (prims : Primitives) (entries : List DirectoryMerkleEntry) : List (List UInt8) :=
  DirectoryMerkleAccumulator.preimages prims .new (canonicalEntries entries)

/-- SHA-256 separates the listed byte strings. -/
def CollisionFree (prims : Primitives) (inputs : List (List UInt8)) : Prop :=
  ∀ left ∈ inputs, ∀ right ∈ inputs, prims.sha256 left = prims.sha256 right → left = right

instance (prims : Primitives) (inputs : List (List UInt8)) : Decidable (CollisionFree prims inputs) :=
  inferInstanceAs (Decidable (∀ left ∈ inputs, ∀ right ∈ inputs, prims.sha256 left = prims.sha256 right → left = right))

theorem CollisionFree.injOn {prims : Primitives} {inputs : List (List UInt8)} (h : CollisionFree prims inputs) :
    Set.InjOn prims.sha256 { bytes | bytes ∈ inputs } :=
  fun left hleft right hright hsame => h left hleft right hright hsame

namespace DirectoryMerkleAccumulator

/-! ### Tracing equal digests back -/

/-- Two subtrees over the same leaves. -/
def SameShape (left right : FileSubtree) : Prop := left.first = right.first ∧ left.leaves = right.leaves

theorem SameShape.eq {left right : FileSubtree} (h : SameShape left right) (hdigest : left.digest = right.digest) :
    left = right := by
  cases left
  cases right
  obtain ⟨rfl, rfl⟩ := h
  cases hdigest
  rfl

theorem mergeSubtrees_eq_ok {prims : Primitives} {domain : List UInt8} {left right merged : FileSubtree}
    (h : mergeSubtrees prims domain left right = .ok merged) :
    left.first < 2 ^ 64 ∧ left.leaves + right.leaves < 2 ^ 64 ∧ merged =
      { first := left.first, leaves := left.leaves + right.leaves,
        digest := prims.sha256 (nodePreimage domain left right (left.leaves + right.leaves)) } := by
  rw [mergeSubtrees, ensure_bind_eq_ok, bind_eq_ok] at h
  obtain ⟨hadjacent, leaves, hleaves, hmerged⟩ := h
  simp only [checkedAdd, beq_iff_eq, orFail_eq_ok] at hadjacent hleaves
  split_ifs at hadjacent hleaves with hfirst hsum
  cases hleaves
  cases hmerged
  exact ⟨by omega, hsum, rfl⟩

theorem mergeSubtrees_sameShape {prims : Primitives} {domain : List UInt8}
    {left right merged left' right' merged' : FileSubtree}
    (hleft : SameShape left left') (hright : SameShape right right')
    (h : mergeSubtrees prims domain left right = .ok merged)
    (h' : mergeSubtrees prims domain left' right' = .ok merged') : SameShape merged merged' := by
  obtain ⟨_, _, rfl⟩ := mergeSubtrees_eq_ok h
  obtain ⟨_, _, rfl⟩ := mergeSubtrees_eq_ok h'
  exact ⟨hleft.1, by rw [hleft.2, hright.2]⟩

theorem mergeSubtrees_binding {prims : Primitives} {domain : List UInt8} {hashed : Set (List UInt8)}
    (hcollision : hashed.InjOn prims.sha256) {left right merged left' right' : FileSubtree}
    (hleft : SameShape left left') (hright : SameShape right right')
    (h : mergeSubtrees prims domain left right = .ok merged)
    (h' : mergeSubtrees prims domain left' right' = .ok merged)
    (hmem : nodePreimage domain left right (left.leaves + right.leaves) ∈ hashed)
    (hmem' : nodePreimage domain left' right' (left'.leaves + right'.leaves) ∈ hashed) :
    left = left' ∧ right = right' := by
  obtain ⟨hfirst, hsum, rfl⟩ := mergeSubtrees_eq_ok h
  obtain ⟨hfirst', hsum', hmerged⟩ := mergeSubtrees_eq_ok h'
  have hbytes := hcollision hmem hmem' (congrArg FileSubtree.digest hmerged)
  obtain ⟨_, hrest⟩ := bigEndian_append_inj hfirst hfirst' (List.append_cancel_left hbytes)
  obtain ⟨_, hdigests⟩ := bigEndian_append_inj hsum hsum' hrest
  obtain ⟨hleftDigest, hrightDigest⟩ := Bytes.append_inj hdigests
  exact ⟨hleft.eq hleftDigest, hright.eq (Bytes.ext hrightDigest)⟩

theorem pushSubtree_sameShape {prims : Primitives} {subtrees subtrees' result result' : List FileSubtree}
    {node node' : FileSubtree} (hstack : List.Forall₂ SameShape subtrees subtrees') (hnode : SameShape node node')
    (h : pushSubtree prims subtrees node = .ok result) (h' : pushSubtree prims subtrees' node' = .ok result') :
    List.Forall₂ SameShape result result' := by
  induction hstack generalizing node node' with
  | nil =>
      cases h
      cases h'
      exact .cons hnode .nil
  | @cons left left' rest rest' hleft hrest ih =>
      rw [pushSubtree] at h h'
      rw [← hleft.2, ← hnode.2] at h'
      split_ifs at h h' with hequal
      · obtain ⟨merged, hmerged, h⟩ := bind_eq_ok.mp h
        obtain ⟨merged', hmerged', h'⟩ := bind_eq_ok.mp h'
        exact ih (mergeSubtrees_sameShape hleft hnode hmerged hmerged') h h'
      · cases h
        cases h'
        exact .cons hnode (.cons hleft hrest)

theorem pushSubtree_binding {prims : Primitives} {hashed : Set (List UInt8)}
    (hcollision : hashed.InjOn prims.sha256) {subtrees subtrees' result : List FileSubtree} {node node' : FileSubtree}
    (hstack : List.Forall₂ SameShape subtrees subtrees') (hnode : SameShape node node')
    (h : pushSubtree prims subtrees node = .ok result) (h' : pushSubtree prims subtrees' node' = .ok result)
    (hmem : ∀ bytes ∈ pushSubtreePreimages prims subtrees node, bytes ∈ hashed)
    (hmem' : ∀ bytes ∈ pushSubtreePreimages prims subtrees' node', bytes ∈ hashed) :
    subtrees = subtrees' ∧ node = node' := by
  induction hstack generalizing node node' with
  | nil =>
      cases h
      cases h'
      exact ⟨rfl, rfl⟩
  | @cons left left' rest rest' hleft hrest ih =>
      rw [pushSubtree] at h h'
      rw [pushSubtreePreimages] at hmem hmem'
      by_cases hequal : left.leaves = node.leaves
      · have hequal' : left'.leaves = node'.leaves := by rw [← hleft.2, ← hnode.2, hequal]
        rw [if_pos hequal, bind_eq_ok] at h
        rw [if_pos hequal', bind_eq_ok] at h'
        obtain ⟨merged, hmerged, h⟩ := h
        obtain ⟨merged', hmerged', h'⟩ := h'
        rw [if_pos hequal, hmerged, List.forall_mem_cons] at hmem
        rw [if_pos hequal', hmerged', List.forall_mem_cons] at hmem'
        obtain ⟨rfl, rfl⟩ := ih (mergeSubtrees_sameShape hleft hnode hmerged hmerged') h h' hmem.2 hmem'.2
        obtain ⟨rfl, rfl⟩ := mergeSubtrees_binding hcollision hleft hnode hmerged hmerged' hmem.1 hmem'.1
        exact ⟨rfl, rfl⟩
      · have hequal' : ¬ left'.leaves = node'.leaves := by rwa [← hleft.2, ← hnode.2]
        rw [if_neg hequal] at h
        rw [if_neg hequal'] at h'
        cases h
        cases h'
        exact ⟨rfl, rfl⟩

theorem foldSubtrees_binding {prims : Primitives} {hashed : Set (List UInt8)}
    (hcollision : hashed.InjOn prims.sha256) {rest rest' : List FileSubtree} {right right' tree tree' : FileSubtree}
    (hstack : List.Forall₂ SameShape rest rest') (hright : SameShape right right')
    (h : foldSubtrees prims right rest = .ok tree) (h' : foldSubtrees prims right' rest' = .ok tree')
    (hdigest : tree.digest = tree'.digest)
    (hmem : ∀ bytes ∈ foldSubtreesPreimages prims right rest, bytes ∈ hashed)
    (hmem' : ∀ bytes ∈ foldSubtreesPreimages prims right' rest', bytes ∈ hashed) :
    tree = tree' ∧ right = right' ∧ rest = rest' := by
  induction hstack generalizing right right' with
  | nil =>
      cases h
      cases h'
      have hsame := hright.eq hdigest
      exact ⟨hsame, hsame, rfl⟩
  | @cons left left' rest rest' hleft hrest ih =>
      rw [foldSubtrees, bind_eq_ok] at h h'
      obtain ⟨merged, hmerged, h⟩ := h
      obtain ⟨merged', hmerged', h'⟩ := h'
      rw [foldSubtreesPreimages, hmerged, List.forall_mem_cons] at hmem
      rw [foldSubtreesPreimages, hmerged', List.forall_mem_cons] at hmem'
      obtain ⟨htree, rfl, rfl⟩ := ih (mergeSubtrees_sameShape hleft hright hmerged hmerged') h h' hmem.2 hmem'.2
      obtain ⟨rfl, rfl⟩ := mergeSubtrees_binding hcollision hleft hright hmerged hmerged' hmem.1 hmem'.1
      exact ⟨htree, rfl, rfl⟩

theorem finish_binding {prims : Primitives} {hashed : Set (List UInt8)} (hcollision : hashed.InjOn prims.sha256)
    {left right : DirectoryMerkleAccumulator} (hleft : WellFormed left) (hright : WellFormed right) {root : Digest}
    (h : left.finish prims = .ok root) (h' : right.finish prims = .ok root)
    (hmem : ∀ bytes ∈ finishPreimages prims left, bytes ∈ hashed)
    (hmem' : ∀ bytes ∈ finishPreimages prims right, bytes ∈ hashed) :
    left.entryCount = right.entryCount ∧
      (List.Forall₂ SameShape left.subtrees right.subtrees → left.subtrees = right.subtrees) := by
  rw [finish, bind_eq_ok] at h h'
  obtain ⟨tree, htree, hroot⟩ := h
  obtain ⟨tree', htree', hroot'⟩ := h'
  simp only [finishPreimages, htree, htree', List.mem_append, List.mem_singleton] at hmem hmem'
  have hbytes : rootPreimage left.entryCount tree = rootPreimage right.entryCount tree' :=
    hcollision (hmem _ (.inr rfl)) (hmem' _ (.inr rfl)) (Except.ok.inj (hroot.trans hroot'.symm))
  have hbound : ∀ accumulator : DirectoryMerkleAccumulator, WellFormed accumulator →
      accumulator.entryCount < 256 ^ 8 := by
    intro accumulator hwf
    have hlimit := hwf.bounded
    simp only [maximumDirectoryEntries] at hlimit
    omega
  obtain ⟨hcount, hdigest⟩ :=
    bigEndian_append_inj (hbound left hleft) (hbound right hright) (List.append_cancel_left hbytes)
  have htrees : tree = tree' := Bytes.ext hdigest
  refine ⟨hcount, fun hshape => ?_⟩
  cases hsubtrees : left.subtrees with
  | nil =>
      rw [hsubtrees] at hshape
      exact (List.forall₂_nil_left_iff.mp hshape).symm
  | cons top rest =>
      cases hsubtrees' : right.subtrees with
      | nil =>
          rw [hsubtrees, hsubtrees'] at hshape
          cases hshape
      | cons top' rest' =>
          rw [hsubtrees, hsubtrees'] at hshape
          rw [hsubtrees, treeDigest, bind_eq_ok] at htree
          rw [hsubtrees', treeDigest, bind_eq_ok] at htree'
          obtain ⟨subtree, hfold, hsubtree⟩ := htree
          obtain ⟨subtree', hfold', hsubtree'⟩ := htree'
          cases hsubtree
          cases hsubtree'
          rw [hsubtrees] at hmem
          rw [hsubtrees'] at hmem'
          obtain ⟨hhead, htail⟩ := List.forall₂_cons.mp hshape
          obtain ⟨_, rfl, rfl⟩ := foldSubtrees_binding hcollision htail hhead hfold hfold' htrees
            (fun bytes hbytes => hmem bytes (.inl hbytes)) (fun bytes hbytes => hmem' bytes (.inl hbytes))
          rfl

/-- The run lemma behind binding: runs that end in the same root pushed the same entries onto the same subtrees. -/
theorem pushAll_binding {prims : Primitives} {hashed : Set (List UInt8)} (hcollision : hashed.InjOn prims.sha256)
    {left right : DirectoryMerkleAccumulator} {entries entries' : List DirectoryMerkleEntry}
    (hleft : WellFormed left) (hright : WellFormed right) (hcount : left.entryCount = right.entryCount)
    (hshape : List.Forall₂ SameShape left.subtrees right.subtrees) (hlength : entries.length = entries'.length)
    {final final' : DirectoryMerkleAccumulator} (h : pushAll prims left entries = .ok final)
    (h' : pushAll prims right entries' = .ok final') {root : Digest} (hroot : final.finish prims = .ok root)
    (hroot' : final'.finish prims = .ok root)
    (hmem : ∀ bytes ∈ preimages prims left entries, bytes ∈ hashed)
    (hmem' : ∀ bytes ∈ preimages prims right entries', bytes ∈ hashed) :
    entries = entries' ∧ left.subtrees = right.subtrees := by
  induction entries generalizing left right entries' with
  | nil =>
      obtain rfl := List.length_eq_zero_iff.mp hlength.symm
      cases h
      cases h'
      exact ⟨rfl, (finish_binding hcollision hleft hright hroot hroot' hmem hmem').2 hshape⟩
  | cons entry entries ih =>
      cases entries' with
      | nil => cases hlength
      | cons entry' entries' =>
          rw [pushAll, bind_eq_ok] at h h'
          obtain ⟨next, hpush, h⟩ := h
          obtain ⟨next', hpush', h'⟩ := h'
          obtain ⟨hnext, hcountNext, _⟩ := push_wellFormed hleft hpush
          obtain ⟨hnext', hcountNext', _⟩ := push_wellFormed hright hpush'
          simp only [preimages, hpush, hpush', List.mem_cons, List.mem_append] at hmem hmem'
          obtain ⟨hvalid, _, _, subtrees, hsubtrees, rfl⟩ := push_eq_ok.mp hpush
          obtain ⟨hvalid', _, _, subtrees', hsubtrees', rfl⟩ := push_eq_ok.mp hpush'
          have hleaf : SameShape (leaf prims left entry) (leaf prims right entry') := ⟨hcount, rfl⟩
          obtain ⟨rfl, hsame⟩ := ih hnext hnext' (by rw [hcountNext, hcountNext', hcount])
            (pushSubtree_sameShape hshape hleaf hsubtrees hsubtrees') (Nat.succ.inj hlength) h h'
            (fun bytes hbytes => hmem bytes (.inr (.inr hbytes)))
            (fun bytes hbytes => hmem' bytes (.inr (.inr hbytes)))
          cases hsame
          obtain ⟨hstack, hnode⟩ := pushSubtree_binding hcollision hshape hleaf hsubtrees hsubtrees'
            (fun bytes hbytes => hmem bytes (.inr (.inl hbytes)))
            (fun bytes hbytes => hmem' bytes (.inr (.inl hbytes)))
          have hentry := entryPreimage_injective (name_length_lt hvalid) (name_length_lt hvalid')
            (hcollision (hmem _ (.inl rfl)) (hmem' _ (.inl rfl)) (congrArg FileSubtree.digest hnode))
          exact ⟨by rw [hentry], hstack⟩

theorem preimages_finish {prims : Primitives} {accumulator final : DirectoryMerkleAccumulator}
    {entries : List DirectoryMerkleEntry} (h : pushAll prims accumulator entries = .ok final) :
    ∀ bytes ∈ finishPreimages prims final, bytes ∈ preimages prims accumulator entries := by
  induction entries generalizing accumulator with
  | nil =>
      cases h
      exact fun bytes hbytes => hbytes
  | cons entry entries ih =>
      rw [pushAll, bind_eq_ok] at h
      obtain ⟨next, hpush, h⟩ := h
      intro bytes hbytes
      rw [preimages, hpush]
      exact List.mem_cons_of_mem _ (List.mem_append_right _ (ih h bytes hbytes))

theorem pushAll_length_binding {prims : Primitives} {hashed : Set (List UInt8)}
    (hcollision : hashed.InjOn prims.sha256) {entries entries' : List DirectoryMerkleEntry}
    {final final' : DirectoryMerkleAccumulator} (h : pushAll prims .new entries = .ok final)
    (h' : pushAll prims .new entries' = .ok final') {root : Digest} (hroot : final.finish prims = .ok root)
    (hroot' : final'.finish prims = .ok root)
    (hmem : ∀ bytes ∈ preimages prims .new entries, bytes ∈ hashed)
    (hmem' : ∀ bytes ∈ preimages prims .new entries', bytes ∈ hashed) : entries.length = entries'.length := by
  obtain ⟨hwf, hcount⟩ := pushAll_wellFormed new_wellFormed h
  obtain ⟨hwf', hcount'⟩ := pushAll_wellFormed new_wellFormed h'
  have hsame := (finish_binding hcollision hwf hwf' hroot hroot'
    (fun bytes hbytes => hmem bytes (preimages_finish h bytes hbytes))
    (fun bytes hbytes => hmem' bytes (preimages_finish h' bytes hbytes))).1
  rw [hcount, hcount'] at hsame
  simpa [DirectoryMerkleAccumulator.new] using hsame

end DirectoryMerkleAccumulator

open DirectoryMerkleAccumulator

/-- A directory root determines the entries, up to the order in which they are listed, unless SHA-256 collides on the
bytes hashed for the two directories. -/
theorem directoryMerkleRoot_binding {prims : Primitives} {hashed : Set (List UInt8)}
    (hcollision : hashed.InjOn prims.sha256) {left right : List DirectoryMerkleEntry} {root : Digest}
    (h : directoryMerkleRoot prims left = .ok root) (h' : directoryMerkleRoot prims right = .ok root)
    (hmem : ∀ bytes ∈ directoryRootPreimages prims left, bytes ∈ hashed)
    (hmem' : ∀ bytes ∈ directoryRootPreimages prims right, bytes ∈ hashed) : left.Perm right := by
  obtain ⟨_, final, hpush, hroot⟩ := directoryMerkleRoot_eq_ok.mp h
  obtain ⟨_, final', hpush', hroot'⟩ := directoryMerkleRoot_eq_ok.mp h'
  have hlength := pushAll_length_binding hcollision hpush hpush' hroot hroot' hmem hmem'
  have hsame : canonicalEntries left = canonicalEntries right :=
    (pushAll_binding hcollision new_wellFormed new_wellFormed rfl .nil hlength hpush hpush' hroot hroot' hmem hmem').1
  calc
    left.Perm (canonicalEntries left) := (KeyOrder.sortByKey_perm entryName left).symm
    _ = canonicalEntries right := hsame
    (canonicalEntries right).Perm right := KeyOrder.sortByKey_perm entryName right

end Skydriver
