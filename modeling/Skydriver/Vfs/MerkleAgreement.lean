import Skydriver.Vfs.Merkle
import Skydriver.Integrity.DirectoryTree

/-!
# Both sides compute the same identities

The data-plane side keeps the ordinal, offset and length of every block and works with wrapping 64-bit integers; the
portable core keeps digests only.  Blocks that pass the checks are determined by their digests, so that both sides come
down to one tree over one list of digests.
-/

namespace Skydriver.Merkle

open Checked

/-! ### Trees -/

theorem buildCanonicalTree_eq (prims : Primitives) (domain : String) (leaves : List Digest) (first : Nat) :
    buildCanonicalTree prims domain leaves first =
      FileMerkle.canonicalTreeWithDomain prims (newDomainHasher domain) leaves first := by
  fun_induction buildCanonicalTree prims domain leaves first with
  | case1 first => rw [FileMerkle.canonicalTreeWithDomain, finishDigest]
  | case2 first leaf => rw [FileMerkle.canonicalTreeWithDomain]
  | case3 first one two rest all leftCount left right ihleft ihright =>
      rw [FileMerkle.canonicalTreeWithDomain, ← largestPowerOfTwoPrefix_eq]
      simp only [left, right, ihleft, ihright, hashBinaryNode, finishDigest, writeHash, writeUint64, List.append_assoc,
        all, leftCount]

theorem isZero_eq_false {width : Nat} {bytes : Bytes width} : isZero bytes = false ↔ bytes ≠ .zero width := by
  rw [isZero, beq_eq_false_iff_ne]

/-! ### Layouts -/

theorem expectedBlockCount_toNat (sizeBytes blockBytes : UInt64) :
    (expectedBlockCount sizeBytes blockBytes).toNat =
      FileMerkle.expectedBlockCount sizeBytes.toNat blockBytes.toNat := by
  have hbound := sizeBytes.toNat_lt
  have hquotient := Nat.div_le_self (sizeBytes.toNat - 1) blockBytes.toNat
  rw [expectedBlockCount, FileMerkle.expectedBlockCount]
  by_cases hempty : sizeBytes = 0
  · rw [if_pos hempty, hempty]
    rfl
  · have hfilled : sizeBytes.toNat ≠ 0 := fun h => hempty (UInt64.toNat_inj.mp h)
    have hone : 1 ≤ sizeBytes := by
      rw [UInt64.le_iff_toNat_le]
      exact Nat.pos_of_ne_zero hfilled
    rw [if_neg hempty, if_neg hfilled, UInt64.toNat_add, UInt64.toNat_div, UInt64.toNat_sub_of_le _ _ hone,
      UInt64.toNat_one, Nat.mod_eq_of_lt (by omega)]

theorem validateFileLayout_eq_ok {sizeBytes blockBytes : UInt64} :
    validateFileLayout sizeBytes blockBytes = .ok () ↔
      0 < blockBytes.toNat ∧ sizeBytes.toNat < 2 ^ 63 ∧ blockBytes.toNat < 2 ^ 63 ∧
        FileMerkle.expectedBlockCount sizeBytes.toNat blockBytes.toNat ≤ maximumBlocks := by
  have hmaximum : maxInt64.toNat = 2 ^ 63 - 1 := by decide
  have hlimit : maximumFileBlocks.toNat = maximumBlocks := by decide
  simp only [validateFileLayout, ensure_bind_eq_ok, ensure_eq_ok, Bool.and_eq_true, decide_eq_true_eq,
    UInt64.le_iff_toNat_le, hmaximum, hlimit, and_assoc]
  have hpositive : blockBytes ≠ 0 ↔ 0 < blockBytes.toNat := by
    rw [Nat.pos_iff_ne_zero]
    exact not_congr UInt64.toNat_inj.symm
  rw [hpositive, expectedBlockCount_toNat]
  omega

/-- Files that fit the block limit with blocks of the portable size stay far below the streaming limit. -/
theorem size_le_of_expectedBlockCount {sizeBytes blockBytes : Nat} (hblock : blockBytes ≤ maximumBlockBytes)
    (hpositive : 0 < blockBytes) (hcount : FileMerkle.expectedBlockCount sizeBytes blockBytes ≤ maximumBlocks) :
    sizeBytes ≤ maximumBlocks * maximumBlockBytes := by
  rw [FileMerkle.expectedBlockCount] at hcount
  split_ifs at hcount with hempty
  · omega
  · have hquotient : (sizeBytes - 1) / blockBytes < maximumBlocks := by omega
    have hsize := (Nat.div_lt_iff_lt_mul hpositive).mp hquotient
    have hproduct := Nat.mul_le_mul_left maximumBlocks hblock
    omega

/-! ### Blocks -/

def canonicalBlocks (sizeBytes blockBytes : UInt64) : Nat → List Digest → List FileBlock
  | _, [] => []
  | index, digest :: leaves =>
      { index := UInt64.ofNat index, offset := UInt64.ofNat index * blockBytes,
        sizeBytes := min blockBytes (sizeBytes - UInt64.ofNat index * blockBytes), digest } ::
      canonicalBlocks sizeBytes blockBytes (index + 1) leaves

theorem canonicalBlocks_digests (sizeBytes blockBytes : UInt64) (index : Nat) (leaves : List Digest) :
    (canonicalBlocks sizeBytes blockBytes index leaves).map FileBlock.digest = leaves := by
  induction leaves generalizing index with
  | nil => rfl
  | cons digest leaves ih => rw [canonicalBlocks, List.map_cons, ih]

theorem canonicalBlocks_length (sizeBytes blockBytes : UInt64) (index : Nat) (leaves : List Digest) :
    (canonicalBlocks sizeBytes blockBytes index leaves).length = leaves.length := by
  rw [← List.length_map FileBlock.digest, canonicalBlocks_digests]

theorem isCanonicalBlock_iff {sizeBytes blockBytes : UInt64} {index : Nat} {block : FileBlock} :
    isCanonicalBlock sizeBytes blockBytes index block = true ↔
      block.digest ≠ .zero 32 ∧
        block = { index := UInt64.ofNat index, offset := UInt64.ofNat index * blockBytes,
                  sizeBytes := min blockBytes (sizeBytes - UInt64.ofNat index * blockBytes),
                  digest := block.digest } := by
  obtain ⟨found, offset, length, digest⟩ := block
  simp only [isCanonicalBlock, Bool.and_eq_true, beq_iff_eq, Bool.not_eq_true', isZero_eq_false, FileBlock.mk.injEq]
  tauto

theorem blockLeaves_eq_ok {sizeBytes blockBytes : UInt64} {index : Nat} {blocks : List FileBlock}
    {leaves : List Digest} :
    blockLeaves sizeBytes blockBytes index blocks = .ok leaves ↔
      blocks = canonicalBlocks sizeBytes blockBytes index leaves ∧ ∀ leaf ∈ leaves, leaf ≠ .zero 32 := by
  induction blocks generalizing index leaves with
  | nil =>
      rw [blockLeaves, Except.ok.injEq]
      constructor
      · rintro rfl
        exact ⟨rfl, by simp⟩
      · rintro ⟨hblocks, _⟩
        have hlength := congrArg List.length hblocks
        rw [canonicalBlocks_length] at hlength
        exact (List.length_eq_zero_iff.mp hlength.symm).symm
  | cons block blocks ih =>
      rw [blockLeaves, ensure_bind_eq_ok, isCanonicalBlock_iff]
      simp only [bind_eq_ok, Except.ok.injEq, ih]
      constructor
      · rintro ⟨⟨hnonzero, hblock⟩, rest, ⟨hblocks, hrest⟩, rfl⟩
        refine ⟨?_, List.forall_mem_cons.mpr ⟨hnonzero, hrest⟩⟩
        rw [canonicalBlocks, ← hblocks, ← hblock]
      · rintro ⟨hblocks, hnonzero⟩
        cases leaves with
        | nil => cases hblocks
        | cons digest rest =>
            obtain ⟨rfl, rfl⟩ := List.cons.inj hblocks
            obtain ⟨hdigest, hrest⟩ := List.forall_mem_cons.mp hnonzero
            exact ⟨⟨hdigest, rfl⟩, rest, ⟨rfl, hrest⟩, rfl⟩

def canonicalFileTree (prims : Primitives) (sizeBytes blockBytes : UInt64) (leaves : List Digest) : FileTree where
  sizeBytes := sizeBytes
  blockBytes := blockBytes
  blocks := canonicalBlocks sizeBytes blockBytes 0 leaves
  treeDigest := FileMerkle.leavesDigest prims leaves
  root := prims.sha256 (FileMerkle.rootPreimage blockBytes.toNat sizeBytes.toNat leaves.length
    (FileMerkle.leavesDigest prims leaves))

theorem treeDigest_eq (prims : Primitives) (leaves : List Digest) :
    (if leaves.isEmpty then hashEmpty prims fileEmptyDomain else buildCanonicalTree prims fileNodeDomain leaves 0) =
      FileMerkle.leavesDigest prims leaves := by
  rw [FileMerkle.leavesDigest, buildCanonicalTree_eq]
  rfl

theorem rootFromFileBlocks_eq_ok {prims : Primitives} {sizeBytes blockBytes : UInt64} {blocks : List FileBlock}
    {tree : FileTree} :
    rootFromFileBlocks prims sizeBytes blockBytes blocks = .ok tree ↔
      validateFileLayout sizeBytes blockBytes = .ok () ∧
      ∃ leaves : List Digest, (∀ leaf ∈ leaves, leaf ≠ .zero 32) ∧
        leaves.length = FileMerkle.expectedBlockCount sizeBytes.toNat blockBytes.toNat ∧
        blocks = canonicalBlocks sizeBytes blockBytes 0 leaves ∧
        tree = canonicalFileTree prims sizeBytes blockBytes leaves := by
  rw [rootFromFileBlocks, bind_eq_ok]
  simp only [ensure_bind_eq_ok]
  simp only [bind_eq_ok, beq_iff_eq, blockLeaves_eq_ok, Except.ok.injEq, treeDigest_eq, expectedBlockCount_toNat]
  constructor
  · rintro ⟨_, hlayout, hcount, leaves, ⟨rfl, hnonzero⟩, rfl⟩
    rw [canonicalBlocks_length] at hcount
    refine ⟨hlayout, leaves, hnonzero, hcount, rfl, ?_⟩
    simp only [canonicalFileTree, canonicalBlocks_length, FileMerkle.rootPreimage, finishDigest, writeHash, writeUint64,
      List.append_assoc]
    rfl
  · rintro ⟨hlayout, leaves, hnonzero, hcount, rfl, rfl⟩
    refine ⟨(), hlayout, by rw [canonicalBlocks_length, hcount], leaves, ⟨rfl, hnonzero⟩, ?_⟩
    simp only [canonicalFileTree, canonicalBlocks_length, FileMerkle.rootPreimage, finishDigest, writeHash, writeUint64,
      List.append_assoc]
    rfl

/-- For blocks of the portable size both sides accept the same digests, zero digests apart, and give the same root. -/
theorem rootFromFileBlocks_canonical {prims : Primitives} {sizeBytes blockBytes : UInt64} {leaves : List Digest}
    (hblock : blockBytes.toNat ≤ maximumBlockBytes) {tree : FileTree} :
    rootFromFileBlocks prims sizeBytes blockBytes (canonicalBlocks sizeBytes blockBytes 0 leaves) = .ok tree ↔
      (∀ leaf ∈ leaves, leaf ≠ .zero 32) ∧
      FileMerkle.fileMerkleRootFromBlockDigests prims sizeBytes.toNat blockBytes.toNat leaves = .ok tree.root ∧
      tree = canonicalFileTree prims sizeBytes blockBytes leaves := by
  rw [rootFromFileBlocks_eq_ok, FileMerkle.fileMerkleRootFromBlockDigests_eq_ok, validateFileLayout_eq_ok]
  constructor
  · rintro ⟨⟨hpositive, _, _, hlimit⟩, leaves', hnonzero, hcount, hblocks, rfl⟩
    have hsame := congrArg (List.map FileBlock.digest) hblocks
    rw [canonicalBlocks_digests, canonicalBlocks_digests] at hsame
    subst hsame
    exact ⟨hnonzero, ⟨hpositive, hblock, by omega, hcount.symm, rfl⟩, rfl⟩
  · rintro ⟨hnonzero, ⟨hpositive, _, hlimit, hcount, _⟩, htree⟩
    have hsize := size_le_of_expectedBlockCount hblock hpositive (hcount ▸ hlimit)
    simp only [maximumBlocks, maximumBlockBytes] at hsize hblock hlimit ⊢
    exact ⟨⟨hpositive, by omega, by omega, by omega⟩, leaves, hnonzero, hcount.symm, rfl, htree⟩

/-! ### Reading a file -/

theorem hashReaderBlock_eq_ok {prims : Primitives} {reader rest : List UInt8} {index length : UInt64}
    {digest : Digest} :
    hashReaderBlock prims reader index length = .ok (digest, rest) ↔
      length.toNat ≤ reader.length ∧ digest = FileMerkle.hashLeaf prims index.toNat (reader.take length.toNat) ∧
        rest = reader.drop length.toNat := by
  rw [hashReaderBlock, ensure_bind_eq_ok, beq_iff_eq, List.length_take, min_eq_left_iff, Except.ok.injEq,
    Prod.mk.injEq]
  refine and_congr_right fun hlength => ?_
  have hdigest : finishDigest prims (writeHash (writeUint64 (writeUint64 (newDomainHasher fileLeafDomain) index.toNat)
      length.toNat) (reader.take length.toNat)) =
        FileMerkle.hashLeaf prims index.toNat (reader.take length.toNat) := by
    rw [FileMerkle.hashLeaf, List.length_take, Nat.min_eq_left hlength]
    simp only [finishDigest, writeHash, writeUint64, List.append_assoc]
    rfl
  rw [hdigest]
  exact and_congr eq_comm eq_comm

/-- The digests of the blocks of a payload, numbered from an index on. -/
def blockDigestsFrom (prims : Primitives) (index blockBytes : Nat) (payload : List UInt8) : List Digest :=
  (FileMerkle.chunks blockBytes payload).mapIdx fun position => FileMerkle.hashLeaf prims (index + position)

theorem blockDigestsFrom_nil (prims : Primitives) (index blockBytes : Nat) :
    blockDigestsFrom prims index blockBytes [] = [] := by
  rw [blockDigestsFrom, FileMerkle.chunks_nil, List.mapIdx_nil]

theorem blockDigestsFrom_cons (prims : Primitives) (index : Nat) {blockBytes : Nat} (hpositive : 0 < blockBytes)
    {payload : List UInt8} (hpayload : payload ≠ []) :
    blockDigestsFrom prims index blockBytes payload =
      FileMerkle.hashLeaf prims index (payload.take blockBytes) ::
        blockDigestsFrom prims (index + 1) blockBytes (payload.drop blockBytes) := by
  have hshift : (fun position => FileMerkle.hashLeaf prims (index + (position + 1))) =
      fun position => FileMerkle.hashLeaf prims (index + 1 + position) := by
    funext position
    rw [Nat.add_assoc, Nat.add_comm 1]
  rw [blockDigestsFrom, FileMerkle.chunks_cons hpositive hpayload, List.mapIdx_cons, hshift, blockDigestsFrom,
    Nat.add_zero]

theorem blockDigestsFrom_zero (prims : Primitives) (blockBytes : Nat) (payload : List UInt8) :
    blockDigestsFrom prims 0 blockBytes payload = FileMerkle.blockDigests prims payload blockBytes := by
  rw [blockDigestsFrom, FileMerkle.blockDigests]
  simp only [Nat.zero_add]

theorem blockDigestsFrom_take (prims : Primitives) (index : Nat) {blockBytes remaining : Nat}
    (hpositive : 0 < blockBytes) (hremaining : 0 < remaining) {reader : List UInt8}
    (hcovers : remaining ≤ reader.length) :
    blockDigestsFrom prims index blockBytes (reader.take remaining) =
      FileMerkle.hashLeaf prims index (reader.take (min blockBytes remaining)) ::
        blockDigestsFrom prims (index + 1) blockBytes
          ((reader.drop (min blockBytes remaining)).take (remaining - min blockBytes remaining)) := by
  have hfilled : reader.take remaining ≠ [] := by
    apply List.ne_nil_of_length_pos
    rw [List.length_take]
    omega
  rw [blockDigestsFrom_cons prims index hpositive hfilled, List.take_take, List.drop_take]
  rcases Nat.le_total blockBytes remaining with hfull | hshort
  · rw [Nat.min_eq_left hfull]
  · rw [Nat.min_eq_right hshort, Nat.sub_self, Nat.sub_eq_zero_of_le hshort, List.take_zero, List.take_zero]

/-- From the start of a block on, the loop takes what is left of the file, cut into blocks. -/
theorem readBlocks_eq_ok {prims : Primitives} {sizeBytes blockBytes : UInt64} (hpositive : 0 < blockBytes.toNat)
    {offset index : UInt64} {reader rest : List UInt8} {blocks : List FileBlock}
    (hoffset : offset.toNat = min sizeBytes.toNat (index.toNat * blockBytes.toNat)) :
    readBlocks prims sizeBytes blockBytes offset index reader = .ok (blocks, rest) ↔
      sizeBytes.toNat - offset.toNat ≤ reader.length ∧
      blocks = canonicalBlocks sizeBytes blockBytes index.toNat
        (blockDigestsFrom prims index.toNat blockBytes.toNat (reader.take (sizeBytes.toNat - offset.toNat))) ∧
      rest = reader.drop (sizeBytes.toNat - offset.toNat) := by
  fun_induction readBlocks prims sizeBytes blockBytes offset index reader generalizing blocks rest with
  | case1 offset index reader hmore length =>
      rename_i ih
      obtain ⟨hinside, _⟩ := hmore
      obtain ⟨hlength, hnext⟩ := Words.blockLength_spec blockBytes hinside
      rw [UInt64.lt_iff_toNat_lt] at hinside
      have hbound := sizeBytes.toNat_lt
      have hstart : offset.toNat = index.toNat * blockBytes.toNat := by omega
      have hindex : index.toNat < sizeBytes.toNat := by
        have := Nat.le_mul_of_pos_right index.toNat hpositive
        omega
      have hsuccessor : (index + 1).toNat = index.toNat + 1 := by
        rw [UInt64.toNat_add, UInt64.toNat_one, Nat.mod_eq_of_lt (by omega)]
      have hposition : UInt64.ofNat index.toNat * blockBytes = offset := by
        rw [UInt64.ofNat_toNat]
        apply UInt64.toNat_inj.mp
        rw [UInt64.toNat_mul, ← hstart, Nat.mod_eq_of_lt (by omega)]
      have hoffset' : (offset + min blockBytes (sizeBytes - offset)).toNat =
          min sizeBytes.toNat ((index + 1).toNat * blockBytes.toNat) := by
        rw [hnext, hsuccessor, Nat.succ_mul, ← hstart]
        omega
      -- the block taken here, in front of those the rest of the loop takes
      have hsplit : sizeBytes.toNat - offset.toNat ≤ reader.length →
          canonicalBlocks sizeBytes blockBytes index.toNat (blockDigestsFrom prims index.toNat blockBytes.toNat
            (reader.take (sizeBytes.toNat - offset.toNat))) =
          { index, offset, sizeBytes := min blockBytes (sizeBytes - offset),
            digest := FileMerkle.hashLeaf prims index.toNat
              (reader.take (min blockBytes (sizeBytes - offset)).toNat) } ::
          canonicalBlocks sizeBytes blockBytes (index + 1).toNat (blockDigestsFrom prims (index + 1).toNat
            blockBytes.toNat ((reader.drop (min blockBytes (sizeBytes - offset)).toNat).take
              (sizeBytes.toNat - (offset + min blockBytes (sizeBytes - offset)).toNat))) := by
        intro hcovers
        rw [blockDigestsFrom_take prims _ hpositive (by omega) hcovers, canonicalBlocks, hposition, hlength, hnext,
          hsuccessor, UInt64.ofNat_toNat, Nat.sub_sub]
      have hdrop : (reader.drop (min blockBytes (sizeBytes - offset)).toNat).drop
          (sizeBytes.toNat - (offset + min blockBytes (sizeBytes - offset)).toNat) =
            reader.drop (sizeBytes.toNat - offset.toNat) := by
        rw [List.drop_drop, hlength, hnext]
        congr 1
        omega
      constructor
      · intro h
        obtain ⟨⟨digest, middle⟩, hdigest, h⟩ := bind_eq_ok.mp h
        obtain ⟨⟨tail, final⟩, htail, hresult⟩ := bind_eq_ok.mp h
        obtain ⟨hfirst, rfl, rfl⟩ := hashReaderBlock_eq_ok.mp hdigest
        obtain ⟨hrest, rfl, rfl⟩ := (ih _ hoffset').mp htail
        obtain ⟨rfl, rfl⟩ := Prod.mk.inj (Except.ok.inj hresult)
        have hcovers : sizeBytes.toNat - offset.toNat ≤ reader.length := by
          have htaken : length.toNat = min blockBytes.toNat (sizeBytes.toNat - offset.toNat) := hlength
          rw [List.length_drop, hnext] at hrest
          omega
        exact ⟨hcovers, (hsplit hcovers).symm, hdrop⟩
      · rintro ⟨hcovers, rfl, rfl⟩
        have hfirst : (min blockBytes (sizeBytes - offset)).toNat ≤ reader.length := by omega
        have hrest : sizeBytes.toNat - (offset + min blockBytes (sizeBytes - offset)).toNat ≤
            (reader.drop (min blockBytes (sizeBytes - offset)).toNat).length := by
          rw [List.length_drop, hnext]
          omega
        rw [hsplit hcovers, ← hdrop]
        exact bind_eq_ok.mpr ⟨_, hashReaderBlock_eq_ok.mpr ⟨hfirst, rfl, rfl⟩,
          bind_eq_ok.mpr ⟨_, (ih _ hoffset').mpr ⟨hrest, rfl, rfl⟩, rfl⟩⟩
  | case2 offset index reader hlast =>
      have hend : sizeBytes.toNat - offset.toNat = 0 := by
        by_contra hopen
        refine hlast ⟨?_, ?_⟩
        · rw [UInt64.lt_iff_toNat_lt]
          omega
        · rw [UInt64.lt_iff_toNat_lt]
          exact hpositive
      rw [hend, List.take_zero, List.drop_zero, blockDigestsFrom_nil, canonicalBlocks, Except.ok.injEq, Prod.mk.injEq]
      constructor
      · rintro ⟨rfl, rfl⟩
        exact ⟨Nat.zero_le _, rfl, rfl⟩
      · rintro ⟨_, rfl, rfl⟩
        exact ⟨rfl, rfl⟩

theorem fileMerkleRoot_iff {prims : Primitives} {payload : List UInt8} {blockBytes : Nat} {root : Digest} :
    FileMerkle.fileMerkleRoot prims payload blockBytes = .ok root ↔
      FileMerkle.fileMerkleRootFromBlockDigests prims payload.length blockBytes
        (FileMerkle.blockDigests prims payload blockBytes) = .ok root := by
  refine ⟨fun h => (FileMerkle.fileMerkleRoot_eq_ok h).2, fun h => ?_⟩
  obtain ⟨hpositive, hblock, hlimit, _⟩ := FileMerkle.fileMerkleRootFromBlockDigests_eq_ok.mp h
  rw [FileMerkle.blockDigests, List.length_mapIdx] at hlimit
  obtain ⟨⟨root', _, hroot, hdigests⟩, _⟩ := FileMerkleAccumulator.streaming_eq_batch prims payload hpositive hblock hlimit
  rw [hroot, ← hdigests, h]

/-- Reading a file succeeds on a payload of the declared length without zero digests, where the portable core has a root
too. -/
theorem buildFile_eq_ok {prims : Primitives} {payload : List UInt8} {sizeBytes blockBytes : UInt64}
    (hpositive : 0 < blockBytes.toNat) (hblock : blockBytes.toNat ≤ maximumBlockBytes) {tree : FileTree} :
    buildFile prims payload sizeBytes blockBytes = .ok tree ↔
      sizeBytes.toNat = payload.length ∧
      (∀ leaf ∈ FileMerkle.blockDigests prims payload blockBytes.toNat, leaf ≠ .zero 32) ∧
      FileMerkle.fileMerkleRoot prims payload blockBytes.toNat = .ok tree.root ∧
      tree = canonicalFileTree prims sizeBytes blockBytes (FileMerkle.blockDigests prims payload blockBytes.toNat) := by
  have hread : ∀ blocks rest, readBlocks prims sizeBytes blockBytes 0 0 payload = .ok (blocks, rest) ↔
      sizeBytes.toNat ≤ payload.length ∧
      blocks = canonicalBlocks sizeBytes blockBytes 0 (FileMerkle.blockDigests prims (payload.take sizeBytes.toNat)
        blockBytes.toNat) ∧ rest = payload.drop sizeBytes.toNat := fun blocks rest => by
    rw [readBlocks_eq_ok hpositive (by simp), UInt64.toNat_zero, Nat.sub_zero, blockDigestsFrom_zero]
  constructor
  · intro h
    obtain ⟨_, _, h⟩ := bind_eq_ok.mp h
    obtain ⟨⟨blocks, rest⟩, hblocks, h⟩ := bind_eq_ok.mp h
    obtain ⟨hcovers, rfl, rfl⟩ := (hread _ _).mp hblocks
    obtain ⟨_, hend, h⟩ := bind_eq_ok.mp h
    rw [requireReaderEOF, ensure_eq_ok, List.isEmpty_iff, List.drop_eq_nil_iff] at hend
    have hlength : sizeBytes.toNat = payload.length := Nat.le_antisymm hcovers hend
    rw [hlength, List.take_length] at h
    obtain ⟨hnonzero, hroot, htree⟩ := (rootFromFileBlocks_canonical hblock).mp h
    rw [hlength] at hroot
    exact ⟨hlength, hnonzero, fileMerkleRoot_iff.mpr hroot, htree⟩
  · rintro ⟨hlength, hnonzero, hroot, htree⟩
    have hdigests := fileMerkleRoot_iff.mp hroot
    rw [← hlength] at hdigests
    have hblocks := (rootFromFileBlocks_canonical hblock).mpr ⟨hnonzero, hdigests, htree⟩
    have hlayout := (rootFromFileBlocks_eq_ok.mp hblocks).1
    have hall := (hread _ _).mpr ⟨hlength.le, rfl, rfl⟩
    rw [hlength, List.take_length, List.drop_length] at hall
    refine bind_eq_ok.mpr ⟨(), hlayout, bind_eq_ok.mpr ⟨_, hall, bind_eq_ok.mpr ⟨(), rfl, hblocks⟩⟩⟩

/-! ### Manifests -/

theorem blockManifestSize_eq_ok {blockCount : UInt64} {bytes : Nat} :
    blockManifestSize blockCount = .ok bytes ↔
      blockCount.toNat ≤ maximumBlocks ∧ bytes = 88 + 32 * blockCount.toNat := by
  have hfixed : (utf8 blockManifestDomain).length + 1 + 3 * 8 + 32 = 88 := by decide
  have hlimit : maximumFileBlocks.toNat = maximumBlocks := by decide
  have hmaximum : maxInt64.toNat = 2 ^ 63 - 1 := by decide
  rw [blockManifestSize, ensure_bind_eq_ok, ensure_bind_eq_ok, Except.ok.injEq, decide_eq_true_eq,
    UInt64.le_iff_toNat_le, hlimit, hfixed]
  refine and_congr_right fun hcount => ?_
  simp only [maximumBlocks] at hcount
  -- below the limit nothing overflows
  have hpayload : (blockCount * 32).toNat = blockCount.toNat * 32 := by
    rw [UInt64.toNat_mul, show (32 : UInt64).toNat = 32 from rfl, Nat.mod_eq_of_lt (by omega)]
  have htotal : (UInt64.ofNat 88 + blockCount * 32).toNat = 88 + 32 * blockCount.toNat := by
    rw [UInt64.toNat_add, hpayload, show (UInt64.ofNat 88).toNat = 88 from rfl, Nat.mod_eq_of_lt (by omega)]
    omega
  have hguard : (!(decide (blockCount ≠ 0) && decide (blockCount * 32 / blockCount ≠ 32)) &&
      decide (UInt64.ofNat 88 + blockCount * 32 ≤ maxInt64)) = true := by
    rw [Bool.and_eq_true, decide_eq_true_eq, UInt64.le_iff_toNat_le, htotal, hmaximum, Bool.not_eq_true',
      Bool.and_eq_false_iff, decide_eq_false_iff_not, decide_eq_false_iff_not, not_not, not_not]
    refine ⟨?_, by omega⟩
    by_cases hzero : blockCount = 0
    · exact .inl hzero
    · right
      apply UInt64.toNat_inj.mp
      have hpositive : 0 < blockCount.toNat := Nat.pos_of_ne_zero fun h => hzero (UInt64.toNat_inj.mp h)
      rw [UInt64.toNat_div, hpayload, Nat.mul_comm, Nat.mul_div_cancel _ hpositive]
      rfl
  rw [htotal]
  constructor
  · rintro ⟨_, rfl⟩
    rfl
  · rintro rfl
    exact ⟨hguard, rfl⟩

theorem digestAt_append (front rest : List UInt8) (digest : Digest) :
    digestAt (front ++ (digest.val ++ rest)) front.length = digest := by
  have htake : ((front ++ (digest.val ++ rest)).drop front.length).take 32 = digest.val := by
    rw [List.drop_left, List.take_left' digest.length_val]
  have hlength : (((front ++ (digest.val ++ rest)).drop front.length).take 32).length = 32 := by
    rw [htake, digest.length_val]
  exact (dif_pos hlength).trans (Bytes.ext htake)

theorem uint64At_append (front rest : List UInt8) (value : UInt64) :
    uint64At (front ++ (bigEndian 8 value.toNat ++ rest)) front.length = value := by
  rw [uint64At, List.drop_left, List.take_left' (bigEndian_length 8 value.toNat),
    bigEndianValue_bigEndian value.toNat_lt, UInt64.ofNat_toNat]

theorem exists_digest {bytes : List UInt8} (h : 32 ≤ bytes.length) :
    ∃ (digest : Digest) (rest : List UInt8), bytes = digest.val ++ rest :=
  ⟨⟨bytes.take 32, by rw [List.length_take]; omega⟩, bytes.drop 32, (List.take_append_drop 32 bytes).symm⟩

/-- The loop reads nonzero digests back to back and numbers the blocks they belong to. -/
theorem parseBlocks_eq_ok {sizeBytes blockBytes : UInt64} {count index : Nat} {front back : List UInt8}
    (hcovers : 32 * count ≤ back.length) {blocks : List FileBlock} {next : Nat} :
    parseBlocks (front ++ back) sizeBytes blockBytes count index front.length = .ok (blocks, next) ↔
      ∃ (leaves : List Digest) (rest : List UInt8), leaves.length = count ∧ (∀ leaf ∈ leaves, leaf ≠ .zero 32) ∧
        back = digestBytes leaves ++ rest ∧ blocks = canonicalBlocks sizeBytes blockBytes index leaves ∧
        next = front.length + 32 * count := by
  induction count generalizing index front back blocks next with
  | zero =>
      rw [parseBlocks, Except.ok.injEq, Prod.mk.injEq]
      constructor
      · rintro ⟨rfl, rfl⟩
        exact ⟨[], back, rfl, by simp, rfl, rfl, rfl⟩
      · rintro ⟨leaves, _, hlength, _, _, rfl, rfl⟩
        rw [List.length_eq_zero_iff.mp hlength]
        exact ⟨rfl, rfl⟩
  | succ count ih =>
      obtain ⟨digest, rest, rfl⟩ := exists_digest (show 32 ≤ back.length by omega)
      have hrest : 32 * count ≤ rest.length := by
        rw [List.length_append, digest.length_val] at hcovers
        omega
      have hfront : front.length + 32 = (front ++ digest.val).length := by
        rw [List.length_append, digest.length_val]
      have hih := @ih (index + 1) (front ++ digest.val) rest hrest
      rw [List.append_assoc, ← hfront] at hih
      rw [parseBlocks, digestAt_append, ensure_bind_eq_ok, Bool.not_eq_true', isZero_eq_false]
      constructor
      · rintro ⟨hnonzero, h⟩
        obtain ⟨⟨tail, final⟩, htail, hresult⟩ := bind_eq_ok.mp h
        obtain ⟨leaves, after, hlength, hall, rfl, rfl, rfl⟩ := hih.mp htail
        obtain ⟨rfl, rfl⟩ := Prod.mk.inj (Except.ok.inj hresult)
        refine ⟨digest :: leaves, after, by rw [List.length_cons, hlength], List.forall_mem_cons.mpr ⟨hnonzero, hall⟩, ?_,
          rfl, by omega⟩
        rw [digestBytes, digestBytes, List.flatMap_cons, List.append_assoc]
      · rintro ⟨leaves, after, hlength, hall, hbytes, rfl, rfl⟩
        cases leaves with
        | nil => simp at hlength
        | cons first leaves =>
            rw [digestBytes, List.flatMap_cons, List.append_assoc] at hbytes
            obtain ⟨rfl, rfl⟩ := Bytes.append_inj hbytes
            obtain ⟨hnonzero, hall⟩ := List.forall_mem_cons.mp hall
            refine ⟨hnonzero, bind_eq_ok.mpr ⟨_, hih.mpr ⟨leaves, after, by simpa using hlength, hall, rfl, rfl,
              rfl⟩, ?_⟩⟩
            rw [Nat.mul_succ, Nat.add_assoc, Nat.add_comm 32]
            rfl

/-- Behind a header the decoder checks the layout, reads the digests and compares the root. -/
theorem parseFileBlockManifest_header {prims : Primitives} {sizeBytes blockBytes blockCount : UInt64}
    {back : List UInt8} (hback : 32 ≤ back.length) {tree : FileTree} :
    parseFileBlockManifest prims (manifestHeader sizeBytes blockBytes blockCount ++ back) = .ok tree ↔
      blockCount.toNat ≤ maximumBlocks ∧ back.length = 32 + 32 * blockCount.toNat ∧ blockBytes ≠ 0 ∧
      blockCount = expectedBlockCount sizeBytes blockBytes ∧
      ∃ leaves : List Digest, leaves.length = blockCount.toNat ∧ (∀ leaf ∈ leaves, leaf ≠ .zero 32) ∧
        back = digestBytes leaves ++ tree.root.val ∧
        rootFromFileBlocks prims sizeBytes blockBytes (canonicalBlocks sizeBytes blockBytes 0 leaves) = .ok tree := by
  have hdomain : utf8 blockManifestDomain ++ [0] = Skydriver.blockManifestDomain := rfl
  have hheader := manifestHeader_length sizeBytes blockBytes blockCount
  have hminimum : blockManifestSize 0 = .ok 88 := blockManifestSize_eq_ok.mpr ⟨Nat.zero_le _, rfl⟩
  have htake : (manifestHeader sizeBytes blockBytes blockCount ++ back).take 32 = Skydriver.blockManifestDomain := by
    rw [manifestHeader, List.append_assoc, List.take_left' blockManifestDomain_length]
  have hsize : uint64At (manifestHeader sizeBytes blockBytes blockCount ++ back) 32 = sizeBytes := by
    rw [manifestHeader, List.append_assoc, List.append_assoc, ← blockManifestDomain_length, uint64At_append]
  have hblock : uint64At (manifestHeader sizeBytes blockBytes blockCount ++ back) 40 = blockBytes := by
    have hfront : (Skydriver.blockManifestDomain ++ bigEndian 8 sizeBytes.toNat).length = 40 := by
      rw [List.length_append, blockManifestDomain_length, bigEndian_length]
    have h := uint64At_append (Skydriver.blockManifestDomain ++ bigEndian 8 sizeBytes.toNat)
      (bigEndian 8 blockCount.toNat ++ back) blockBytes
    rw [hfront] at h
    simpa only [manifestHeader, List.append_assoc] using h
  have hcount : uint64At (manifestHeader sizeBytes blockBytes blockCount ++ back) 48 = blockCount := by
    have hfront : (Skydriver.blockManifestDomain ++ (bigEndian 8 sizeBytes.toNat ++
        bigEndian 8 blockBytes.toNat)).length = 48 := by
      simp only [List.length_append, blockManifestDomain_length, bigEndian_length]
    have h := uint64At_append (Skydriver.blockManifestDomain ++ (bigEndian 8 sizeBytes.toNat ++
      bigEndian 8 blockBytes.toNat)) back blockCount
    rw [hfront] at h
    simpa only [manifestHeader, List.append_assoc] using h
  have hlength : (manifestHeader sizeBytes blockBytes blockCount ++ back).length = 56 + back.length := by
    rw [List.length_append, hheader]
  have hlong : (decide (88 ≤ (manifestHeader sizeBytes blockBytes blockCount ++ back).length)) = true := by
    rw [hlength]
    simpa using by omega
  simp only [parseFileBlockManifest, hminimum, hdomain, blockManifestDomain_length, htake, hsize, hblock, hcount, hlong,
    beq_self_eq_true, Bool.and_self, ensure_true, ok_bind, Nat.reduceAdd]
  simp only [bind_eq_ok, mapError_eq_ok, blockManifestSize_eq_ok, ensure_eq_ok, beq_iff_eq, Bool.and_eq_true,
    decide_eq_true_eq, Except.ok.injEq, hlength]
  rw [← hheader]
  -- where the root stands, behind the digests and at the end
  have hroot : ∀ (leaves : List Digest) (root : Digest), leaves.length = blockCount.toNat →
      digestAt (manifestHeader sizeBytes blockBytes blockCount ++ (digestBytes leaves ++ root.val))
        ((manifestHeader sizeBytes blockBytes blockCount).length + 32 * blockCount.toNat) = root := by
    intro leaves root hleaves
    have h := digestAt_append (manifestHeader sizeBytes blockBytes blockCount ++ digestBytes leaves) [] root
    rwa [List.append_nil, List.length_append, digestBytes_length, hleaves, List.append_assoc] at h
  constructor
  · rintro ⟨_, ⟨hlimit, rfl⟩, _, hbytes, _, ⟨hpositive, hexpected⟩, ⟨blocks, next⟩, hblocks, found, hfound, _, hsame, rfl⟩
    rw [hheader] at hbytes
    obtain ⟨leaves, rest, hleaves, hnonzero, rfl, rfl, rfl⟩ := (parseBlocks_eq_ok (by omega)).mp hblocks
    have hrest : rest.length = 32 := by
      rw [List.length_append, digestBytes_length] at hbytes
      omega
    obtain ⟨root, rfl⟩ : ∃ root : Digest, rest = root.val := ⟨⟨rest, hrest⟩, rfl⟩
    rw [hroot leaves root hleaves] at hsame
    subst hsame
    exact ⟨hlimit, by omega, hpositive, hexpected, leaves, hleaves, hnonzero, rfl, hfound⟩
  · rintro ⟨hlimit, hbytes, hpositive, hexpected, leaves, hleaves, hnonzero, rfl, hfound⟩
    refine ⟨_, ⟨hlimit, rfl⟩, (), by rw [hheader]; omega, (), ⟨hpositive, hexpected⟩, _,
      (parseBlocks_eq_ok (by omega)).mpr ⟨leaves, tree.root.val, hleaves, hnonzero, rfl, rfl, rfl⟩, tree, hfound, (),
      hroot leaves tree.root hleaves, rfl⟩

/-- The decoder accepts the layout of nonzero digests in front of their root, and nothing else. -/
theorem parseFileBlockManifest_eq_ok {prims : Primitives} {encoded : List UInt8} {tree : FileTree} :
    parseFileBlockManifest prims encoded = .ok tree ↔
      rootFromFileBlocks prims tree.sizeBytes tree.blockBytes tree.blocks = .ok tree ∧
      encoded = manifestBytes tree.sizeBytes tree.blockBytes (UInt64.ofNat tree.blocks.length)
        (tree.blocks.map FileBlock.digest) tree.root := by
  constructor
  · intro h
    have hframe : 88 ≤ encoded.length ∧ Skydriver.blockManifestDomain.isPrefixOf encoded = true := by
      have hminimum : blockManifestSize 0 = .ok 88 := blockManifestSize_eq_ok.mpr ⟨Nat.zero_le _, rfl⟩
      rw [parseFileBlockManifest, hminimum, ok_bind, ensure_bind_eq_ok, Bool.and_eq_true, decide_eq_true_eq,
        beq_iff_eq] at h
      refine ⟨h.1.1, List.isPrefixOf_iff_prefix.mpr ?_⟩
      have hleading := List.take_prefix (utf8 blockManifestDomain ++ [0]).length encoded
      rwa [h.1.2] at hleading
    obtain ⟨sizeBytes, blockBytes, blockCount, back, rfl, hback⟩ := exists_manifestHeader hframe.1 hframe.2
    obtain ⟨_, _, _, _, leaves, hleaves, _, rfl, hroot⟩ := (parseFileBlockManifest_header hback).mp h
    obtain ⟨_, leaves', _, _, hblocks, rfl⟩ := rootFromFileBlocks_eq_ok.mp hroot
    have hsame := congrArg (List.map FileBlock.digest) hblocks
    rw [canonicalBlocks_digests, canonicalBlocks_digests] at hsame
    subst hsame
    refine ⟨hroot, ?_⟩
    simp only [manifestBytes, canonicalFileTree, canonicalBlocks_length, canonicalBlocks_digests, hleaves,
      UInt64.ofNat_toNat]
  · rintro ⟨hroot, rfl⟩
    obtain ⟨hlayout, leaves, hnonzero, hcount, hblocks, htree⟩ := rootFromFileBlocks_eq_ok.mp hroot
    obtain ⟨hpositive, _, _, hlimit⟩ := validateFileLayout_eq_ok.mp hlayout
    have hleaves : (UInt64.ofNat leaves.length).toNat = leaves.length :=
      UInt64.toNat_ofNat_of_lt' (by simp only [UInt64.size, maximumBlocks] at *; omega)
    have hexpected : UInt64.ofNat leaves.length = expectedBlockCount tree.sizeBytes tree.blockBytes := by
      apply UInt64.toNat_inj.mp
      rw [hleaves, expectedBlockCount_toNat, hcount]
    rw [hblocks] at hroot
    rw [hblocks, canonicalBlocks_digests, canonicalBlocks_length, manifestBytes]
    refine (parseFileBlockManifest_header (by simp)).mpr ⟨by omega, ?_, ?_, hexpected, leaves, hleaves.symm, hnonzero, rfl,
      hroot⟩
    · rw [List.length_append, digestBytes_length, tree.root.length_val, hleaves]
      omega
    · rintro hzero
      rw [hzero] at hpositive
      simp at hpositive

theorem foldl_digests (blocks : List FileBlock) (encoded : List UInt8) :
    blocks.foldl (fun encoded block => encoded ++ block.digest.val) encoded =
      encoded ++ digestBytes (blocks.map FileBlock.digest) := by
  induction blocks generalizing encoded with
  | nil => rw [List.foldl_nil, List.map_nil, digestBytes, List.flatMap_nil, List.append_nil]
  | cons block blocks ih =>
      rw [List.foldl_cons, ih, List.map_cons, digestBytes, digestBytes, List.flatMap_cons, List.append_assoc]

/-- The encoder writes the layout of every tree over its blocks, and of no other. -/
theorem marshalFileBlockManifest_eq_ok {prims : Primitives} {tree : FileTree} {encoded : List UInt8} :
    marshalFileBlockManifest prims tree = .ok encoded ↔
      rootFromFileBlocks prims tree.sizeBytes tree.blockBytes tree.blocks = .ok tree ∧
      encoded = manifestBytes tree.sizeBytes tree.blockBytes (UInt64.ofNat tree.blocks.length)
        (tree.blocks.map FileBlock.digest) tree.root := by
  rw [marshalFileBlockManifest, bind_eq_ok]
  simp only [mapError_eq_ok]
  have hbytes : rootFromFileBlocks prims tree.sizeBytes tree.blockBytes tree.blocks = .ok tree →
      (UInt64.ofNat tree.blocks.length).toNat = tree.blocks.length ∧
      blockManifestSize (UInt64.ofNat tree.blocks.length) = .ok (88 + 32 * (UInt64.ofNat tree.blocks.length).toNat) := by
    intro hroot
    obtain ⟨hlayout, leaves, _, hcount, hblocks, _⟩ := rootFromFileBlocks_eq_ok.mp hroot
    obtain ⟨_, _, _, hlimit⟩ := validateFileLayout_eq_ok.mp hlayout
    have hlength : tree.blocks.length ≤ maximumBlocks := by
      rw [hblocks, canonicalBlocks_length]
      omega
    have hcount : (UInt64.ofNat tree.blocks.length).toNat = tree.blocks.length :=
      UInt64.toNat_ofNat_of_lt' (by simp only [UInt64.size, maximumBlocks] at *; omega)
    exact ⟨hcount, blockManifestSize_eq_ok.mpr ⟨by omega, rfl⟩⟩
  have hwritten : rootFromFileBlocks prims tree.sizeBytes tree.blockBytes tree.blocks = .ok tree →
      tree.blocks.foldl (fun encoded block => encoded ++ block.digest.val) (writeUint64 (writeUint64 (writeUint64
        (utf8 blockManifestDomain ++ [0]) tree.sizeBytes.toNat) tree.blockBytes.toNat) tree.blocks.length) ++
          tree.root.val =
        manifestBytes tree.sizeBytes tree.blockBytes (UInt64.ofNat tree.blocks.length)
          (tree.blocks.map FileBlock.digest) tree.root := by
    intro hroot
    rw [foldl_digests, manifestBytes, manifestHeader, (hbytes hroot).1]
    simp only [writeUint64, List.append_assoc]
    rfl
  constructor
  · rintro ⟨validated, hvalidated, h⟩
    rw [ensure_bind_eq_ok, Bool.and_eq_true, beq_iff_eq, beq_iff_eq] at h
    obtain ⟨⟨hroot, hdigest⟩, h⟩ := h
    -- the validated tree differs from the given one in its digests at most
    have hsame : validated = tree := by
      obtain ⟨_, leaves, _, _, hblocks, hcanonical⟩ := rootFromFileBlocks_eq_ok.mp hvalidated
      obtain ⟨sizeBytes, blockBytes, blocks, treeDigest, root⟩ := tree
      simp only [canonicalFileTree] at hcanonical
      subst hcanonical
      simp_all
    rw [hsame] at hvalidated
    rw [(hbytes hvalidated).2, ok_bind, Except.ok.injEq, hwritten hvalidated] at h
    exact ⟨hvalidated, h.symm⟩
  · rintro ⟨hroot, rfl⟩
    refine ⟨tree, hroot, ?_⟩
    rw [beq_self_eq_true, beq_self_eq_true, Bool.and_self, ensure_true, ok_bind, (hbytes hroot).2, ok_bind,
      hwritten hroot]

theorem marshal_iff_encode {prims : Primitives} {tree : FileTree} {encoded : List UInt8}
    (hblock : tree.blockBytes.toNat ≤ maximumBlockBytes) :
    marshalFileBlockManifest prims tree = .ok encoded ↔
      rootFromFileBlocks prims tree.sizeBytes tree.blockBytes tree.blocks = .ok tree ∧
      encodeBlockManifest prims tree.sizeBytes tree.blockBytes (tree.blocks.map FileBlock.digest) = .ok encoded := by
  rw [marshalFileBlockManifest_eq_ok, encodeBlockManifest_eq_ok]
  refine and_congr_right fun hroot => ?_
  obtain ⟨_, leaves, _, _, hblocks, _⟩ := rootFromFileBlocks_eq_ok.mp hroot
  rw [hblocks] at hroot
  obtain ⟨hnonzero, hdigests, _⟩ := (rootFromFileBlocks_canonical hblock).mp hroot
  rw [hblocks, canonicalBlocks_digests, canonicalBlocks_length]
  constructor
  · rintro rfl
    exact ⟨hnonzero, tree.root, hdigests, rfl⟩
  · rintro ⟨_, root, hroot, rfl⟩
    rw [hdigests, Except.ok.injEq] at hroot
    rw [hroot]

theorem parse_iff_validate {prims : Primitives} {encoded : List UInt8} {expected : BlockManifestExpectation} :
    (∃ tree, parseFileBlockManifest prims encoded = .ok tree ∧ tree.blockBytes.toNat ≤ maximumBlockBytes ∧
      tree.sizeBytes = expected.sizeBytes ∧ tree.blockBytes = expected.blockBytes ∧
      tree.blocks.length = expected.blockCount.toNat ∧ tree.root = expected.fileRoot) ↔
      validateBlockManifest prims encoded expected = .ok () := by
  rw [validateBlockManifest_eq_ok]
  constructor
  · rintro ⟨tree, hparse, hblock, hsize, hbytes, hcount, hfile⟩
    obtain ⟨hroot, rfl⟩ := parseFileBlockManifest_eq_ok.mp hparse
    obtain ⟨_, leaves, _, _, hblocks, _⟩ := rootFromFileBlocks_eq_ok.mp hroot
    rw [hblocks] at hroot
    obtain ⟨hnonzero, hdigests, _⟩ := (rootFromFileBlocks_canonical hblock).mp hroot
    have hlength : leaves.length = expected.blockCount.toNat := by
      rw [← hcount, hblocks, canonicalBlocks_length]
    refine ⟨leaves, hnonzero, hlength, by rw [← hsize, ← hbytes, ← hfile]; exact hdigests, ?_⟩
    rw [hcount, UInt64.ofNat_toNat, hblocks, canonicalBlocks_digests, hsize, hbytes, hfile]
  · rintro ⟨leaves, hnonzero, hlength, hroot, rfl⟩
    have hblock := (FileMerkle.fileMerkleRootFromBlockDigests_eq_ok.mp hroot).2.1
    let tree := canonicalFileTree prims expected.sizeBytes expected.blockBytes leaves
    have hfile : tree.root = expected.fileRoot :=
      (FileMerkle.fileMerkleRootFromBlockDigests_eq_ok.mp hroot).2.2.2.2
    have htree : rootFromFileBlocks prims expected.sizeBytes expected.blockBytes
        (canonicalBlocks expected.sizeBytes expected.blockBytes 0 leaves) = .ok tree :=
      (rootFromFileBlocks_canonical hblock).mpr ⟨hnonzero, by rw [hfile]; exact hroot, rfl⟩
    have hcount : tree.blocks.length = expected.blockCount.toNat := by
      rw [← hlength]
      exact canonicalBlocks_length _ _ _ _
    refine ⟨tree, parseFileBlockManifest_eq_ok.mpr ⟨htree, ?_⟩, hblock, rfl, rfl, hcount, hfile⟩
    rw [hcount, UInt64.ofNat_toNat, hfile]
    simp only [tree, canonicalFileTree, canonicalBlocks_digests]

/-! ### Directories -/

/-- The record for an entry of the portable core: what only files have is zero for a directory. -/
def directoryEntry : DirectoryMerkleEntry → DirectoryEntry
  | .file name stableId versionId sizeBytes dataRoot metadataRoot =>
      ⟨name, entryFile, stableId, versionId, sizeBytes, dataRoot, metadataRoot⟩
  | .directory name stableId dataRoot => ⟨name, entryDirectory, stableId, .zero 16, 0, dataRoot, .zero 32⟩

@[simp] theorem directoryEntry_name (entry : DirectoryMerkleEntry) : (directoryEntry entry).name = entryName entry := by
  cases entry <;> rfl

theorem hashDirectoryEntry_eq (prims : Primitives) (entry : DirectoryMerkleEntry) :
    hashDirectoryEntry prims (directoryEntry entry) = entryDigest prims entry := by
  cases entry with
  | file name stableId versionId sizeBytes dataRoot metadataRoot =>
      simp only [hashDirectoryEntry, directoryEntry, entryDigest, entryPreimage, finishDigest, writeHash, writeUint64,
        writeUint32, List.append_assoc]
      rfl
  | directory name stableId dataRoot =>
      simp only [hashDirectoryEntry, directoryEntry, entryDigest, entryPreimage, finishDigest, writeHash, writeUint32,
        List.append_assoc]
      rfl

theorem validateEntryName_eq_ok {prims : Primitives} {name : Text} :
    validateEntryName prims name = .ok () ↔ Utf8.valid name = true ∧ isCanonicalName prims name = true := by
  have hlimit : maximumNameBytes = Skydriver.maximumNameBytes := rfl
  rw [validateEntryName, hlimit]
  simp only [ensure_bind_eq_ok, ensure_eq_ok, isCanonicalName, Bool.not_eq_true', Bool.or_eq_false_iff,
    decide_eq_false_iff_not, Bool.not_eq_false', gt_iff_lt]
  tauto

theorem validate_eq_ok {prims : Primitives} {entry : DirectoryEntry} :
    entry.validate prims = .ok () ↔
      ∃ portable, entry = directoryEntry portable ∧ Utf8.valid (entryName portable) = true ∧
        validateDirectoryEntry prims portable = .ok () := by
  obtain ⟨name, kind, stableId, versionId, sizeBytes, dataRoot, metadataRoot⟩ := entry
  rw [DirectoryEntry.validate, bind_eq_ok]
  simp only [ensure_bind_eq_ok, Bool.and_eq_true, Bool.not_eq_true', isZero_eq_false]
  constructor
  · rintro ⟨_, hname, ⟨hstable, hdata⟩, h⟩
    obtain ⟨hutf8, hcanonical⟩ := validateEntryName_eq_ok.mp hname
    split_ifs at h with hfile hdirectory
    · rw [ensure_eq_ok, Bool.and_eq_true, Bool.not_eq_true', Bool.not_eq_true', isZero_eq_false, isZero_eq_false] at h
      subst hfile
      refine ⟨.file name stableId versionId sizeBytes dataRoot metadataRoot, rfl, hutf8, ?_⟩
      simp [validateDirectoryEntry, entryName, hcanonical, hstable, hdata, h.1, h.2]
    · rw [ensure_eq_ok] at h
      simp only [isZero, Bool.and_eq_true, beq_iff_eq] at h
      obtain ⟨⟨rfl, rfl⟩, rfl⟩ := h
      subst hdirectory
      refine ⟨.directory name stableId dataRoot, rfl, hutf8, ?_⟩
      simp [validateDirectoryEntry, entryName, hcanonical, hstable, hdata]
  · rintro ⟨portable, hentry, hutf8, hvalid⟩
    have hcanonical := validateDirectoryEntry_name hvalid
    cases portable with
    | file name' stableId' versionId' sizeBytes' dataRoot' metadataRoot' =>
        cases hentry
        simp only [validateDirectoryEntry, ensure_bind_eq_ok, ensure_eq_ok, Bool.and_eq_true, decide_eq_true_eq] at hvalid
        obtain ⟨_, ⟨⟨hstable, hversion⟩, hdata⟩, hmetadata⟩ := hvalid
        refine ⟨(), validateEntryName_eq_ok.mpr ⟨hutf8, hcanonical⟩, ⟨hstable, hdata⟩, ?_⟩
        rw [if_pos rfl, ensure_eq_ok, Bool.and_eq_true, Bool.not_eq_true', Bool.not_eq_true', isZero_eq_false,
          isZero_eq_false]
        exact ⟨hversion, hmetadata⟩
    | directory name' stableId' dataRoot' =>
        cases hentry
        simp only [validateDirectoryEntry, ensure_bind_eq_ok, ensure_eq_ok, Bool.and_eq_true, decide_eq_true_eq] at hvalid
        obtain ⟨_, hstable, hdata⟩ := hvalid
        refine ⟨(), validateEntryName_eq_ok.mpr ⟨hutf8, hcanonical⟩, ⟨hstable, hdata⟩, ?_⟩
        rw [if_neg (by decide), if_pos rfl]
        simp [isZero, ensure]

theorem hashEntries_eq_ok {prims : Primitives} {index : Nat} {previous : Option Text} {entries : List DirectoryEntry}
    {hashed : List HashedDirectoryEntry} (hsorted : entries.Pairwise fun left right => left.name ≤ right.name)
    (hprevious : ∀ name, previous = some name → ∀ entry ∈ entries, name ≤ entry.name) :
    hashEntries prims index previous entries = .ok hashed ↔
      (∀ entry ∈ entries, entry.validate prims = .ok ()) ∧ KeyOrder.StrictlyOrdered DirectoryEntry.name entries ∧
      (∀ name, previous = some name → ∀ entry ∈ entries, name < entry.name) ∧
      hashed = entries.map fun entry => ⟨entry, hashDirectoryEntry prims entry⟩ := by
  induction entries generalizing index previous hashed with
  | nil =>
      rw [hashEntries, Except.ok.injEq]
      simp [KeyOrder.StrictlyOrdered, eq_comm]
  | cons entry entries ih =>
      obtain ⟨hfirst, hrest⟩ := List.pairwise_cons.mp hsorted
      have hih := fun hashed => @ih (index + 1) (some entry.name) hashed hrest (by
        intro name hname other hother
        cases hname
        exact hfirst other hother)
      rw [hashEntries, bind_eq_ok]
      simp only [mapError_eq_ok, ensure_bind_eq_ok, decide_eq_true_eq]
      constructor
      · rintro ⟨_, hvalid, hdistinct, h⟩
        obtain ⟨tail, htail, hresult⟩ := bind_eq_ok.mp h
        obtain ⟨hall, hstrict, habove, rfl⟩ := (hih _).mp htail
        have hbelow : ∀ name, previous = some name → name < entry.name := by
          intro name hname
          have hle := hprevious name hname entry List.mem_cons_self
          by_contra hnot
          apply hdistinct
          rw [hname, List.le_antisymm hle (List.not_lt.mp hnot)]
        refine ⟨List.forall_mem_cons.mpr ⟨hvalid, hall⟩, List.pairwise_cons.mpr ⟨habove _ rfl, hstrict⟩, ?_,
          (Except.ok.inj hresult).symm⟩
        intro name hname other hother
        rcases List.mem_cons.mp hother with rfl | hother
        · exact hbelow name hname
        · exact List.lt_trans (hbelow name hname) (habove _ rfl other hother)
      · rintro ⟨hall, hstrict, hbelow, rfl⟩
        obtain ⟨hvalid, hall⟩ := List.forall_mem_cons.mp hall
        obtain ⟨habove, hstrict⟩ := List.pairwise_cons.mp hstrict
        refine ⟨(), hvalid, ?_, bind_eq_ok.mpr ⟨_, (hih _).mpr ⟨hall, hstrict, ?_, rfl⟩, rfl⟩⟩
        · rintro rfl
          exact List.lt_irrefl _ (hbelow _ rfl entry List.mem_cons_self)
        · intro name hname other hother
          cases hname
          exact habove other hother

def canonicalDirectoryTree (prims : Primitives) (entries : List DirectoryEntry) : DirectoryTree :=
  let leaves := entries.map (hashDirectoryEntry prims)
  let treeDigest :=
    if leaves.isEmpty then prims.sha256 Skydriver.directoryEmptyDomain
    else FileMerkle.canonicalTreeWithDomain prims Skydriver.directoryNodeDomain leaves 0
  { entries := entries.map fun entry => ⟨entry, hashDirectoryEntry prims entry⟩, treeDigest,
    root := prims.sha256 (DirectoryMerkleAccumulator.rootPreimage leaves.length treeDigest) }

theorem buildDirectory_eq_ok {prims : Primitives} {slices : NameSort} {entries : List DirectoryEntry}
    {tree : DirectoryTree} :
    buildDirectory prims slices entries = .ok tree ↔
      entries.length ≤ maximumDirectoryEntries ∧ (∀ entry ∈ entries, entry.validate prims = .ok ()) ∧
      KeyOrder.StrictlyOrdered DirectoryEntry.name (slices.sort entries) ∧
      tree = canonicalDirectoryTree prims (slices.sort entries) := by
  have hperm := slices.perm entries
  have hloop := fun hashed =>
    @hashEntries_eq_ok prims 0 none (slices.sort entries) hashed (slices.ordered entries) (by simp)
  rw [buildDirectory, ensure_bind_eq_ok, decide_eq_true_eq, bind_eq_ok]
  simp only [hloop, Except.ok.injEq]
  refine and_congr_right fun _ => ?_
  constructor
  · rintro ⟨hashed, ⟨hvalid, hstrict, _, rfl⟩, rfl⟩
    refine ⟨fun entry hentry => hvalid entry (hperm.mem_iff.mpr hentry), hstrict, ?_⟩
    simp only [canonicalDirectoryTree, buildCanonicalTree_eq, List.map_map, Function.comp_def]
    rfl
  · rintro ⟨hvalid, hstrict, rfl⟩
    refine ⟨_, ⟨fun entry hentry => hvalid entry (hperm.mem_iff.mp hentry), hstrict, by simp, rfl⟩, ?_⟩
    simp only [canonicalDirectoryTree, buildCanonicalTree_eq, List.map_map, Function.comp_def]
    rfl

theorem directoryEntry_injective {left right : DirectoryMerkleEntry} (h : directoryEntry left = directoryEntry right) :
    left = right := by
  cases left with
  | file =>
      cases right with
      | file =>
          cases h
          rfl
      | directory =>
          have hkind : entryFile = entryDirectory := congrArg DirectoryEntry.kind h
          exact absurd hkind (by decide)
  | directory =>
      cases right with
      | file =>
          have hkind : entryDirectory = entryFile := congrArg DirectoryEntry.kind h
          exact absurd hkind (by decide)
      | directory =>
          cases h
          rfl

theorem validate_directoryEntry {prims : Primitives} {entry : DirectoryMerkleEntry}
    (hutf8 : Utf8.valid (entryName entry) = true) :
    (directoryEntry entry).validate prims = .ok () ↔ validateDirectoryEntry prims entry = .ok () := by
  rw [validate_eq_ok]
  constructor
  · rintro ⟨portable, hsame, _, hvalid⟩
    rw [directoryEntry_injective hsame]
    exact hvalid
  · intro hvalid
    exact ⟨entry, rfl, hutf8, hvalid⟩

/-- However the records are sorted, distinct names come out in the canonical order. -/
theorem sort_directoryEntries (slices : NameSort) {entries : List DirectoryMerkleEntry}
    (hnodup : (entries.map entryName).Nodup) :
    KeyOrder.StrictlyOrdered DirectoryEntry.name (slices.sort (entries.map directoryEntry)) ∧
      slices.sort (entries.map directoryEntry) = (canonicalEntries entries).map directoryEntry := by
  have hperm := slices.perm (entries.map directoryEntry)
  have hnames : (entries.map directoryEntry).map DirectoryEntry.name = entries.map entryName := by
    simp [List.map_map, Function.comp_def]
  have hstrict : KeyOrder.StrictlyOrdered DirectoryEntry.name (slices.sort (entries.map directoryEntry)) := by
    have hdistinct := (hperm.map DirectoryEntry.name).nodup_iff.mpr (hnames ▸ hnodup)
    refine (slices.ordered _).imp₂ (fun left right hle hne => ?_) (List.pairwise_map.mp hdistinct)
    by_contra hnot
    exact hne (List.le_antisymm hle (List.not_lt.mp hnot))
  refine ⟨hstrict, hstrict.eq_of_perm ?_ (hperm.trans ?_)⟩
  · rw [KeyOrder.StrictlyOrdered, List.pairwise_map]
    simp only [directoryEntry_name]
    exact KeyOrder.sortByKey_strictlyOrdered hnodup
  · exact ((KeyOrder.sortByKey_perm entryName entries).map directoryEntry).symm

theorem canonicalDirectoryTree_root (prims : Primitives) (entries : List DirectoryMerkleEntry) :
    (canonicalDirectoryTree prims (entries.map directoryEntry)).root = canonicalDirectoryRoot prims entries := by
  have hleaves : (entries.map directoryEntry).map (hashDirectoryEntry prims) = entries.map (entryDigest prims) := by
    rw [List.map_map]
    exact List.map_congr_left fun entry _ => hashDirectoryEntry_eq prims entry
  rw [canonicalDirectoryTree, canonicalDirectoryRoot, hleaves, List.length_map, List.isEmpty_map]

theorem buildDirectory_iff {prims : Primitives} {slices : NameSort} {entries : List DirectoryMerkleEntry}
    (hutf8 : ∀ entry ∈ entries, Utf8.valid (entryName entry) = true) {root : Digest} :
    (∃ tree, buildDirectory prims slices (entries.map directoryEntry) = .ok tree ∧ tree.root = root) ↔
      directoryMerkleRoot prims entries = .ok root := by
  have hvalid : (∀ entry ∈ entries.map directoryEntry, entry.validate prims = .ok ()) ↔
      ∀ entry ∈ entries, validateDirectoryEntry prims entry = .ok () := by
    rw [List.forall_mem_map]
    exact forall₂_congr fun entry hentry => validate_directoryEntry (hutf8 entry hentry)
  have hlimit : maximumDirectoryEntries = Skydriver.maximumDirectoryEntries := rfl
  simp only [buildDirectory_eq_ok, List.length_map, hvalid, hlimit]
  constructor
  · rintro ⟨tree, ⟨hcount, hall, hstrict, rfl⟩, rfl⟩
    have hnodup : (entries.map entryName).Nodup := by
      have hnames := ((slices.perm (entries.map directoryEntry)).map DirectoryEntry.name).nodup_iff.mp hstrict.nodup
      simpa [List.map_map, Function.comp_def] using hnames
    obtain ⟨root, hroot⟩ := directoryMerkleRoot_succeeds_iff.mpr ⟨hcount, hall, hnodup⟩
    rw [(sort_directoryEntries slices hnodup).2, canonicalDirectoryTree_root, hroot, directoryMerkleRoot_canonical hroot]
  · intro hroot
    obtain ⟨hcount, hall, hnodup⟩ := directoryMerkleRoot_succeeds_iff.mp ⟨root, hroot⟩
    obtain ⟨hstrict, hsort⟩ := sort_directoryEntries slices hnodup
    refine ⟨_, ⟨hcount, hall, hstrict, rfl⟩, ?_⟩
    rw [hsort, canonicalDirectoryTree_root, directoryMerkleRoot_canonical hroot]

/-- Every list of records with a root is the list of the records of some entries. -/
theorem buildDirectory_portable {prims : Primitives} {slices : NameSort} {entries : List DirectoryEntry}
    {tree : DirectoryTree} (h : buildDirectory prims slices entries = .ok tree) :
    ∃ portable : List DirectoryMerkleEntry, (∀ entry ∈ portable, Utf8.valid (entryName entry) = true) ∧
      entries = portable.map directoryEntry ∧ directoryMerkleRoot prims portable = .ok tree.root := by
  obtain ⟨_, hvalid, _⟩ := buildDirectory_eq_ok.mp h
  have hportable : ∀ records : List DirectoryEntry, (∀ entry ∈ records, entry.validate prims = .ok ()) →
      ∃ portable : List DirectoryMerkleEntry, (∀ entry ∈ portable, Utf8.valid (entryName entry) = true) ∧
        records = portable.map directoryEntry := by
    intro records
    induction records with
    | nil => exact fun _ => ⟨[], by simp, rfl⟩
    | cons record records ih =>
        intro hall
        obtain ⟨hrecord, hrest⟩ := List.forall_mem_cons.mp hall
        obtain ⟨entry, rfl, hutf8, _⟩ := validate_eq_ok.mp hrecord
        obtain ⟨portable, hnames, rfl⟩ := ih hrest
        exact ⟨entry :: portable, List.forall_mem_cons.mpr ⟨hutf8, hnames⟩, rfl⟩
  obtain ⟨portable, hutf8, rfl⟩ := hportable entries hvalid
  exact ⟨portable, hutf8, rfl, (buildDirectory_iff hutf8).mp ⟨tree, h, rfl⟩⟩

/-! ### Agreement -/

/-- Both sides agree on the identity of every file, every directory and every block manifest, as long as SHA-256 does
not map a block of the file to the zero digest, which one side takes for a missing one. -/
theorem contentIdentity_agrees (prims : Primitives) (slices : NameSort) :
    (∀ (payload : List UInt8) (blockBytes : UInt64), 0 < blockBytes.toNat → blockBytes.toNat ≤ maximumBlockBytes →
      (∀ leaf ∈ FileMerkle.blockDigests prims payload blockBytes.toNat, leaf ≠ .zero 32) → ∀ root,
        (∃ tree, buildFile prims payload (UInt64.ofNat payload.length) blockBytes = .ok tree ∧ tree.root = root) ↔
          FileMerkle.fileMerkleRoot prims payload blockBytes.toNat = .ok root) ∧
    (∀ (payload : List UInt8) (sizeBytes blockBytes : UInt64) (tree : FileTree), blockBytes.toNat ≤ maximumBlockBytes →
      buildFile prims payload sizeBytes blockBytes = .ok tree →
        sizeBytes.toNat = payload.length ∧
          FileMerkle.fileMerkleRoot prims payload blockBytes.toNat = .ok tree.root) ∧
    (∀ entries : List DirectoryMerkleEntry, (∀ entry ∈ entries, Utf8.valid (entryName entry) = true) → ∀ root,
      (∃ tree, buildDirectory prims slices (entries.map directoryEntry) = .ok tree ∧ tree.root = root) ↔
        directoryMerkleRoot prims entries = .ok root) ∧
    (∀ (entries : List DirectoryEntry) (tree : DirectoryTree), buildDirectory prims slices entries = .ok tree →
      ∃ portable : List DirectoryMerkleEntry, (∀ entry ∈ portable, Utf8.valid (entryName entry) = true) ∧
        entries = portable.map directoryEntry ∧ directoryMerkleRoot prims portable = .ok tree.root) ∧
    (∀ (encoded : List UInt8) (expected : BlockManifestExpectation),
      (∃ tree, parseFileBlockManifest prims encoded = .ok tree ∧ tree.blockBytes.toNat ≤ maximumBlockBytes ∧
        tree.sizeBytes = expected.sizeBytes ∧ tree.blockBytes = expected.blockBytes ∧
        tree.blocks.length = expected.blockCount.toNat ∧ tree.root = expected.fileRoot) ↔
      validateBlockManifest prims encoded expected = .ok ()) ∧
    (∀ (tree : FileTree) (encoded : List UInt8), tree.blockBytes.toNat ≤ maximumBlockBytes →
      (marshalFileBlockManifest prims tree = .ok encoded ↔
        rootFromFileBlocks prims tree.sizeBytes tree.blockBytes tree.blocks = .ok tree ∧
        encodeBlockManifest prims tree.sizeBytes tree.blockBytes (tree.blocks.map FileBlock.digest) = .ok encoded)) ∧
    ∀ (sizeBytes blockBytes : UInt64) (leaves : List Digest) (encoded : List UInt8),
      encodeBlockManifest prims sizeBytes blockBytes leaves = .ok encoded →
        ∃ tree, rootFromFileBlocks prims sizeBytes blockBytes (canonicalBlocks sizeBytes blockBytes 0 leaves) =
            .ok tree ∧ marshalFileBlockManifest prims tree = .ok encoded := by
  refine ⟨fun payload blockBytes hpositive hblock hnonzero root => ?_,
    fun payload sizeBytes blockBytes tree hblock h => ?_, fun entries hutf8 root => buildDirectory_iff hutf8,
    fun entries tree h => buildDirectory_portable h, fun encoded expected => parse_iff_validate,
    fun tree encoded hblock => marshal_iff_encode hblock, fun sizeBytes blockBytes leaves encoded h => ?_⟩
  · simp only [buildFile_eq_ok hpositive hblock]
    constructor
    · rintro ⟨tree, ⟨_, _, hroot, _⟩, rfl⟩
      exact hroot
    · intro hroot
      obtain ⟨_, _, hlimit, hcount, hdigest⟩ :=
        FileMerkle.fileMerkleRootFromBlockDigests_eq_ok.mp (fileMerkleRoot_iff.mp hroot)
      have hsize := size_le_of_expectedBlockCount hblock hpositive (hcount ▸ hlimit)
      have hlength : (UInt64.ofNat payload.length).toNat = payload.length :=
        UInt64.toNat_ofNat_of_lt' (by simp only [UInt64.size, maximumBlocks, maximumBlockBytes] at *; omega)
      have hsame : (canonicalFileTree prims (UInt64.ofNat payload.length) blockBytes
          (FileMerkle.blockDigests prims payload blockBytes.toNat)).root = root := by
        rw [canonicalFileTree, hlength, hdigest]
      exact ⟨_, ⟨hlength, hnonzero, by rw [hsame]; exact hroot, rfl⟩, hsame⟩
  · have hpositive : 0 < blockBytes.toNat := by
      obtain ⟨_, hlayout, _⟩ := bind_eq_ok.mp h
      exact (validateFileLayout_eq_ok.mp hlayout).1
    obtain ⟨hlength, _, hroot, _⟩ := (buildFile_eq_ok hpositive hblock).mp h
    exact ⟨hlength, hroot⟩
  · obtain ⟨hnonzero, root, hroot, _⟩ := encodeBlockManifest_eq_ok.mp h
    obtain ⟨_, hblock, _, _, rfl⟩ := FileMerkle.fileMerkleRootFromBlockDigests_eq_ok.mp hroot
    have htree : rootFromFileBlocks prims sizeBytes blockBytes (canonicalBlocks sizeBytes blockBytes 0 leaves) =
        .ok (canonicalFileTree prims sizeBytes blockBytes leaves) :=
      (rootFromFileBlocks_canonical hblock).mpr ⟨hnonzero, hroot, rfl⟩
    refine ⟨_, htree, (marshal_iff_encode hblock).mpr ⟨htree, ?_⟩⟩
    simpa only [canonicalFileTree, canonicalBlocks_digests] using h

def insertionSort : NameSort :=
  ⟨KeyOrder.sortByKey DirectoryEntry.name, KeyOrder.sortByKey_perm _, KeyOrder.sortByKey_pairwise _⟩

/-- SHA-256 on the leaf and on the root of the file that holds one letter, with blocks of four bytes. -/
def letterDigests (bytes : List UInt8) : Digest :=
  if bytes = FileMerkle.leafPreimage 0 [97] then
    .ofNat 32 0x0b5c4d44dceae291a1dc4ff1b135b024d1ad0b1556aebb9a6c503653d5b4e4c2
  else .ofNat 32 0x1258d9902d708116931c6ce9304d87653f2ab5be426d8fd6aca3fea1d074714d

theorem contentIdentity_agrees_letter :
    ∃ tree, buildFile ⟨letterDigests, fun _ => true⟩ [97] 1 4 = .ok tree ∧
      tree.root = .ofNat 32 0x1258d9902d708116931c6ce9304d87653f2ab5be426d8fd6aca3fea1d074714d :=
  ((contentIdentity_agrees ⟨letterDigests, fun _ => true⟩ insertionSort).1 [97] 4 (by decide) (by decide)
    (by decide +kernel) _).mpr (by decide +kernel)

end Skydriver.Merkle
