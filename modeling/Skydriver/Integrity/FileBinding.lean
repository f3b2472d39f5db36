import Skydriver.Integrity.FileRoot

/-!
# What a file root commits to

Equal file roots come from the same payload and the same block size, unless two byte strings hashed for the two roots
collide.  The collision is not only said to exist: `findCollision` compares the byte strings of the two computations,
and the theorem is about the pair it returns.
-/

namespace Skydriver

open Checked

/-- SHA-256 tells the listed byte strings of one computation apart from those of another. -/
def Separated (prims : Primitives) (left right : List (List UInt8)) : Prop :=
  ∀ first ∈ left, ∀ second ∈ right, prims.sha256 first = prims.sha256 second → first = second

/-- The first two distinct byte strings with one digest, one from each list. -/
def findCollision (prims : Primitives) (left right : List (List UInt8)) : Option (List UInt8 × List UInt8) :=
  (left.flatMap fun first => right.map fun second => (first, second)).find? fun pair =>
    pair.1 ≠ pair.2 && prims.sha256 pair.1 = prims.sha256 pair.2

/-- A pair found by comparing two computations, with the reason why it is a collision. -/
def Collides (prims : Primitives) (left right : List (List UInt8)) : Prop :=
  ∃ first second, findCollision prims left right = some (first, second) ∧ first ∈ left ∧ second ∈ right ∧
    first ≠ second ∧ prims.sha256 first = prims.sha256 second

theorem separated_or_collides (prims : Primitives) (left right : List (List UInt8)) :
    Separated prims left right ∨ Collides prims left right := by
  cases hfind : findCollision prims left right with
  | none =>
      refine .inl fun first hfirst second hsecond hsame => ?_
      have hpair : (first, second) ∈ left.flatMap fun first => right.map fun second => (first, second) :=
        List.mem_flatMap.mpr ⟨first, hfirst, List.mem_map_of_mem hsecond⟩
      have hnone := List.find?_eq_none.mp hfind _ hpair
      by_contra hne
      simp [hne, hsame] at hnone
  | some pair =>
      obtain ⟨first, second⟩ := pair
      have hpair := List.mem_of_find?_eq_some hfind
      have hcollision := List.find?_some hfind
      simp only [List.mem_flatMap, List.mem_map, Prod.mk.injEq] at hpair
      obtain ⟨_, hfirst, _, hsecond, rfl, rfl⟩ := hpair
      simp only [Bool.and_eq_true, decide_eq_true_eq] at hcollision
      exact .inr ⟨_, _, hfind, hfirst, hsecond, hcollision.1, hcollision.2⟩

theorem Separated.mono {prims : Primitives} {left right left' right' : List (List UInt8)}
    (h : Separated prims left right) (hleft : left' ⊆ left) (hright : right' ⊆ right) : Separated prims left' right' :=
  fun first hfirst second hsecond => h first (hleft hfirst) second (hright hsecond)

/-- Equal digests of byte strings that are told apart come from equal byte strings. -/
theorem Separated.map_eq {prims : Primitives} {left right : List (List UInt8)} (h : Separated prims left right)
    (hsame : left.map prims.sha256 = right.map prims.sha256) : left = right := by
  induction left generalizing right with
  | nil => exact (List.map_eq_nil_iff.mp hsame.symm).symm
  | cons first left ih =>
      match right with
      | [] => simp at hsame
      | second :: right =>
          simp only [List.map_cons, List.cons.injEq] at hsame
          rw [h first List.mem_cons_self second List.mem_cons_self hsame.1,
            ih (h.mono (List.subset_cons_self _ _) (List.subset_cons_self _ _)) hsame.2]

namespace FileMerkle

/-! ### The bytes hashed on the way to a root -/

/-- The bytes hashed into the leaf of one block. -/
def leafPreimage (index : Nat) (payload : List UInt8) : List UInt8 :=
  fileLeafDomain ++ (bigEndian 8 index ++ (bigEndian 8 payload.length ++ payload))

def rootPreimage (blockBytes sizeBytes blockCount : Nat) (tree : Digest) : List UInt8 :=
  fileRootDomain ++ (bigEndian 8 blockBytes ++ (bigEndian 8 sizeBytes ++ (bigEndian 8 blockCount ++ tree.val)))

/-- The bytes hashed for the nodes of a canonical tree, the top node first. -/
def treePreimages (prims : Primitives) (domain : List UInt8) (leaves : List Digest) (first : Nat) :
    List (List UInt8) :=
  match leaves with
  | [] => [[]]
  | [_] => []
  | one :: two :: rest =>
      let all := one :: two :: rest
      let left := all.take (leftCount all.length)
      let right := all.drop (leftCount all.length)
      nodePreimage domain (subtreeOf prims domain left first)
          (subtreeOf prims domain right (first + leftCount all.length)) all.length ::
        (treePreimages prims domain left first ++ treePreimages prims domain right (first + leftCount all.length))
termination_by leaves.length
decreasing_by
  · obtain ⟨level, heq, hlt, _⟩ := leftCount_bounds (show 2 ≤ (one :: two :: rest).length by simp)
    simp only [List.length_take, heq] at *
    omega
  · obtain ⟨level, heq, hlt, _⟩ := leftCount_bounds (show 2 ≤ (one :: two :: rest).length by simp)
    have := Nat.two_pow_pos level
    simp only [List.length_drop, heq] at *
    omega

/-- The digest over all blocks, with its own domain for the empty file. -/
def leavesDigest (prims : Primitives) (leaves : List Digest) : Digest :=
  if leaves.isEmpty then prims.sha256 fileEmptyDomain else canonicalTreeWithDomain prims fileNodeDomain leaves 0

/-- The bytes hashed by `leavesDigest`. -/
def leavesDigestPreimages (prims : Primitives) (leaves : List Digest) : List (List UInt8) :=
  if leaves.isEmpty then [fileEmptyDomain] else treePreimages prims fileNodeDomain leaves 0

/-- Every byte string that SHA-256 is applied to in the computation of one file root. -/
def fileRootPreimages (prims : Primitives) (payload : List UInt8) (blockBytes : Nat) : List (List UInt8) :=
  let leaves := blockDigests prims payload blockBytes
  (chunks blockBytes payload).mapIdx leafPreimage ++ (leavesDigestPreimages prims leaves ++
    [rootPreimage blockBytes payload.length leaves.length (leavesDigest prims leaves)])

theorem fileRoot_eq (prims : Primitives) (blockBytes sizeBytes blockCount : Nat) (tree : Digest) :
    fileRoot prims blockBytes sizeBytes blockCount tree =
      prims.sha256 (rootPreimage blockBytes sizeBytes blockCount tree) := rfl

theorem blockDigests_eq (prims : Primitives) (payload : List UInt8) (blockBytes : Nat) :
    blockDigests prims payload blockBytes =
      ((chunks blockBytes payload).mapIdx leafPreimage).map prims.sha256 := by
  rw [blockDigests, List.mapIdx_eq_zipIdx_map, List.mapIdx_eq_zipIdx_map, List.map_map]
  rfl

theorem fileMerkleRootFromBlockDigests_eq_ok {prims : Primitives} {sizeBytes blockBytes : Nat} {leaves : List Digest}
    {root : Digest} :
    fileMerkleRootFromBlockDigests prims sizeBytes blockBytes leaves = .ok root ↔
      0 < blockBytes ∧ blockBytes ≤ maximumBlockBytes ∧ leaves.length ≤ maximumBlocks ∧
      expectedBlockCount sizeBytes blockBytes = leaves.length ∧
      prims.sha256 (rootPreimage blockBytes sizeBytes leaves.length (leavesDigest prims leaves)) = root := by
  simp only [fileMerkleRootFromBlockDigests, ensure_bind_eq_ok, Bool.and_eq_true, decide_eq_true_eq, beq_iff_eq,
    Except.ok.injEq, fileRoot_eq, leavesDigest, Nat.pos_iff_ne_zero, and_assoc]

theorem fileMerkleRoot_eq_ok {prims : Primitives} {payload : List UInt8} {blockBytes : Nat} {root : Digest}
    (h : fileMerkleRoot prims payload blockBytes = .ok root) :
    0 < blockBytes ∧
      fileMerkleRootFromBlockDigests prims payload.length blockBytes (blockDigests prims payload blockBytes) =
        .ok root := by
  simp only [fileMerkleRoot, ensure_bind_eq_ok, Bool.and_eq_true, decide_eq_true_eq] at h
  exact ⟨Nat.pos_of_ne_zero h.1.1, h.2.2⟩

/-! ### Tracing equal digests back -/

/-- Trees over equally many leaves have the same shape, so equal digests are traced back to equal leaves. -/
theorem canonicalTreeWithDomain_binding {prims : Primitives} {domain : List UInt8} {leaves leaves' : List Digest}
    {first : Nat} (hlength : leaves.length = leaves'.length)
    (hseparated : Separated prims (treePreimages prims domain leaves first) (treePreimages prims domain leaves' first))
    (hsame : canonicalTreeWithDomain prims domain leaves first = canonicalTreeWithDomain prims domain leaves' first) :
    leaves = leaves' := by
  induction hcount : leaves.length using Nat.strongRecOn generalizing leaves leaves' first with
  | ind count ih =>
      match leaves, leaves' with
      | [], [] => rfl
      | [leaf], [leaf'] =>
          simp only [canonicalTreeWithDomain] at hsame
          rw [hsame]
      | one :: two :: rest, one' :: two' :: rest' =>
          have hlong : 2 ≤ (one :: two :: rest).length := by simp
          obtain ⟨level, hleft, hlower, hupper⟩ := leftCount_bounds hlong
          have hpos := Nat.two_pow_pos level
          rw [canonicalTreeWithDomain, canonicalTreeWithDomain] at hsame
          rw [treePreimages, treePreimages] at hseparated
          simp only [← hlength] at hsame hseparated
          generalize hall : one :: two :: rest = all at *
          generalize hall' : one' :: two' :: rest' = all' at *
          rw [hleft] at hsame hseparated
          have htop := hseparated _ List.mem_cons_self _ List.mem_cons_self hsame
          have hbytes := List.append_cancel_left (List.append_cancel_left (List.append_cancel_left htop))
          obtain ⟨hleftDigest, hrightDigest⟩ := Bytes.append_inj hbytes
          have hleftSame : all.take (2 ^ level) = all'.take (2 ^ level) := ih (all.take (2 ^ level)).length
            (by rw [List.length_take]; omega) (by rw [List.length_take, List.length_take, hlength])
            (hseparated.mono (fun _ hmem => List.mem_cons_of_mem _ (List.mem_append_left _ hmem))
              (fun _ hmem => List.mem_cons_of_mem _ (List.mem_append_left _ hmem))) hleftDigest rfl
          have hrightSame : all.drop (2 ^ level) = all'.drop (2 ^ level) := ih (all.drop (2 ^ level)).length
            (by rw [List.length_drop]; omega) (by rw [List.length_drop, List.length_drop, hlength])
            (hseparated.mono (fun _ hmem => List.mem_cons_of_mem _ (List.mem_append_right _ hmem))
              (fun _ hmem => List.mem_cons_of_mem _ (List.mem_append_right _ hmem))) (Bytes.ext hrightDigest) rfl
          rw [← List.take_append_drop (2 ^ level) all, ← List.take_append_drop (2 ^ level) all', hleftSame, hrightSame]

theorem leavesDigest_binding {prims : Primitives} {leaves leaves' : List Digest}
    (hlength : leaves.length = leaves'.length)
    (hseparated : Separated prims (leavesDigestPreimages prims leaves) (leavesDigestPreimages prims leaves'))
    (hsame : leavesDigest prims leaves = leavesDigest prims leaves') : leaves = leaves' := by
  rw [leavesDigest, leavesDigest] at hsame
  rw [leavesDigestPreimages, leavesDigestPreimages] at hseparated
  match leaves, leaves' with
  | [], [] => rfl
  | leaf :: rest, leaf' :: rest' => exact canonicalTreeWithDomain_binding hlength hseparated hsame

/-- A leaf determines its block: the position is fixed, and the length field has a fixed width. -/
theorem leafPreimage_injective {index : Nat} {block block' : List UInt8}
    (h : leafPreimage index block = leafPreimage index block') : block = block' := by
  have hfields := List.append_cancel_left (List.append_cancel_left h)
  exact (List.append_inj hfields (by simp)).2

theorem mapIdx_leafPreimage_injective {blocks blocks' : List (List UInt8)}
    (h : blocks.mapIdx leafPreimage = blocks'.mapIdx leafPreimage) : blocks = blocks' := by
  have hlength : blocks.length = blocks'.length := by simpa using congrArg List.length h
  refine List.ext_getElem hlength fun index hindex hindex' => ?_
  have hleaf : (blocks.mapIdx leafPreimage)[index]? = (blocks'.mapIdx leafPreimage)[index]? := by rw [h]
  rw [List.getElem?_mapIdx, List.getElem?_mapIdx, List.getElem?_eq_getElem hindex, List.getElem?_eq_getElem hindex',
    Option.map_some, Option.map_some, Option.some_inj] at hleaf
  exact leafPreimage_injective hleaf

/-- Equal roots come from equal block sizes, equal numbers of blocks and equal digests of all blocks. -/
theorem rootPreimage_injective {blockBytes blockBytes' sizeBytes sizeBytes' blockCount blockCount' : Nat}
    {tree tree' : Digest} (hblock : blockBytes < 2 ^ 64) (hblock' : blockBytes' < 2 ^ 64)
    (hcount : blockCount < 2 ^ 64) (hcount' : blockCount' < 2 ^ 64)
    (h : rootPreimage blockBytes sizeBytes blockCount tree = rootPreimage blockBytes' sizeBytes' blockCount' tree') :
    blockBytes = blockBytes' ∧ blockCount = blockCount' ∧ tree = tree' := by
  obtain ⟨hblocks, hsizes⟩ := bigEndian_append_inj (show blockBytes < 256 ^ 8 from hblock)
    (show blockBytes' < 256 ^ 8 from hblock') (List.append_cancel_left h)
  obtain ⟨_, hcounts⟩ := List.append_inj hsizes (by simp)
  obtain ⟨hcounted, htree⟩ := bigEndian_append_inj (show blockCount < 256 ^ 8 from hcount)
    (show blockCount' < 256 ^ 8 from hcount') hcounts
  exact ⟨hblocks, hcounted, Bytes.ext htree⟩

theorem fileMerkleRoot_binding {prims : Primitives} {payload payload' : List UInt8} {blockBytes blockBytes' : Nat}
    {root : Digest}
    (hseparated : Separated prims (fileRootPreimages prims payload blockBytes)
      (fileRootPreimages prims payload' blockBytes'))
    (h : fileMerkleRoot prims payload blockBytes = .ok root)
    (h' : fileMerkleRoot prims payload' blockBytes' = .ok root) :
    payload = payload' ∧ blockBytes = blockBytes' := by
  obtain ⟨hpos, h⟩ := fileMerkleRoot_eq_ok h
  obtain ⟨hpos', h'⟩ := fileMerkleRoot_eq_ok h'
  obtain ⟨_, hblock, hcount, _, hroot⟩ := fileMerkleRootFromBlockDigests_eq_ok.mp h
  obtain ⟨_, hblock', hcount', _, hroot'⟩ := fileMerkleRootFromBlockDigests_eq_ok.mp h'
  simp only [maximumBlockBytes, maximumBlocks] at hblock hblock' hcount hcount'
  have htop := hseparated _ (List.mem_append_right _ (List.mem_append_right _ (List.mem_singleton.mpr rfl)))
    _ (List.mem_append_right _ (List.mem_append_right _ (List.mem_singleton.mpr rfl))) (hroot.trans hroot'.symm)
  obtain ⟨rfl, hlength, hdigest⟩ := rootPreimage_injective (by omega) (by omega) (by omega) (by omega) htop
  have hleaves := leavesDigest_binding hlength
    (hseparated.mono (fun _ hmem => List.mem_append_right _ (List.mem_append_left _ hmem))
      (fun _ hmem => List.mem_append_right _ (List.mem_append_left _ hmem))) hdigest
  rw [blockDigests_eq, blockDigests_eq] at hleaves
  have hblocks := mapIdx_leafPreimage_injective
    ((hseparated.mono (List.subset_append_left _ _) (List.subset_append_left _ _)).map_eq hleaves)
  refine ⟨?_, rfl⟩
  rw [← chunks_flatten hpos payload, ← chunks_flatten hpos payload', hblocks]

/-- A file root determines the payload and the block size, unless the search among the byte strings hashed for the two
roots returns a collision. -/
theorem fileMerkleRoot_binds (prims : Primitives) (payload payload' : List UInt8) (blockBytes blockBytes' : Nat)
    (root : Digest) (h : fileMerkleRoot prims payload blockBytes = .ok root)
    (h' : fileMerkleRoot prims payload' blockBytes' = .ok root) :
    (payload = payload' ∧ blockBytes = blockBytes') ∨
      Collides prims (fileRootPreimages prims payload blockBytes) (fileRootPreimages prims payload' blockBytes') := by
  rcases separated_or_collides prims (fileRootPreimages prims payload blockBytes)
    (fileRootPreimages prims payload' blockBytes') with hseparated | hcollides
  · exact .inl (fileMerkleRoot_binding hseparated h h')
  · exact .inr hcollides

/-- With a digest that only looks at the last byte, the roots of two payloads agree and the search returns the colliding
leaves. -/
theorem fileMerkleRoot_binds_lastByte :
    (([1, 9] : List UInt8) = [2, 9] ∧ 2 = 2) ∨
      Collides ⟨fun bytes => .ofByte 31 (bytes.getLastD 0), fun _ => true⟩
        (fileRootPreimages ⟨fun bytes => .ofByte 31 (bytes.getLastD 0), fun _ => true⟩ [1, 9] 2)
        (fileRootPreimages ⟨fun bytes => .ofByte 31 (bytes.getLastD 0), fun _ => true⟩ [2, 9] 2) :=
  fileMerkleRoot_binds ⟨fun bytes => .ofByte 31 (bytes.getLastD 0), fun _ => true⟩ [1, 9] [2, 9] 2 2
    (.ofByte 31 0) (by decide +kernel) (by decide +kernel)

end FileMerkle

end Skydriver
