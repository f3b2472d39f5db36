import Skydriver.Integrity.Success
import Skydriver.Lib.CarryStack

/-!
# Canonical file identities

The Merkle root of one file, computed in two ways: from all block digests at once, by a recursive split at the largest
power of two below the number of leaves, and block by block, by an accumulator that keeps one completed subtree for each
bit of the number of blocks seen.
-/

namespace Skydriver

open Checked

def fileLeafDomain : List UInt8 := utf8 "skydriver.vfs.file.leaf.v1" ++ [0]
def fileEmptyDomain : List UInt8 := utf8 "skydriver.vfs.file.empty.v1" ++ [0]
def fileNodeDomain : List UInt8 := utf8 "skydriver.vfs.file.node.v1" ++ [0]
def fileRootDomain : List UInt8 := utf8 "skydriver.vfs.file.root.v1" ++ [0]
def maximumBlockBytes : Nat := 256 * 1024 * 1024
def maximumBlocks : Nat := 1000000

namespace FileMerkle

def hashLeaf (prims : Primitives) (index : Nat) (payload : List UInt8) : Digest :=
  prims.sha256 (fileLeafDomain ++ (bigEndian 8 index ++ (bigEndian 8 payload.length ++ payload)))

def fileRoot (prims : Primitives) (blockBytes sizeBytes blockCount : Nat) (tree : Digest) : Digest :=
  prims.sha256 (fileRootDomain ++ (bigEndian 8 blockBytes ++ (bigEndian 8 sizeBytes ++
    (bigEndian 8 blockCount ++ tree.val))))

def expectedBlockCount (sizeBytes blockBytes : Nat) : Nat :=
  if sizeBytes = 0 then 0 else 1 + (sizeBytes - 1) / blockBytes

/-- `payload.chunks(size)`: consecutive pieces of `size` bytes, the last one possibly shorter. -/
def chunks (size : Nat) (payload : List UInt8) : List (List UInt8) :=
  if _hmore : payload ≠ [] ∧ 0 < size then payload.take size :: chunks size (payload.drop size) else []
termination_by payload.length
decreasing_by
  have := List.length_pos_iff.mpr _hmore.1
  rw [List.length_drop]
  omega

/-- The loop that doubles `left_count` up to half of the other leaves. -/
def doubleCount (limit count : Nat) : Nat :=
  if h : 0 < count ∧ count ≤ limit then doubleCount limit (count * 2) else count
termination_by limit + 1 - count
decreasing_by omega

/-- How many leaves go to the left. -/
def leftCount (leaves : Nat) : Nat := doubleCount ((leaves - 1) / 2) 1

theorem leftCount_bounds {leaves : Nat} (h : 2 ≤ leaves) :
    ∃ level, leftCount leaves = 2 ^ level ∧ 2 ^ level < leaves ∧ leaves ≤ 2 * 2 ^ level := by
  have hloop : ∀ steps level, (leaves - 1) / 2 + 1 - 2 ^ level = steps → 2 ^ level < leaves →
      ∃ final, doubleCount ((leaves - 1) / 2) (2 ^ level) = 2 ^ final ∧ 2 ^ final < leaves ∧ leaves ≤ 2 * 2 ^ final := by
    intro steps
    induction steps using Nat.strongRecOn with
    | ind steps ih =>
        intro level hsteps hlevel
        have hpos : 0 < 2 ^ level := Nat.two_pow_pos level
        rw [doubleCount]
        split_ifs with hmore
        · have hdouble : 2 ^ level * 2 = 2 ^ (level + 1) := (Nat.pow_succ 2 level).symm
          rw [hdouble]
          apply ih _ _ (level + 1) rfl
          · omega
          · omega
        · exact ⟨level, rfl, hlevel, by omega⟩
  have hstart := hloop _ 0 rfl (by rw [Nat.pow_zero]; omega)
  rw [Nat.pow_zero] at hstart
  exact hstart

/-- `canonical_tree_with_domain`; its callers never pass an empty slice. -/
def canonicalTreeWithDomain (prims : Primitives) (domain : List UInt8) (leaves : List Digest) (first : Nat) : Digest :=
  match leaves with
  | [] => prims.sha256 []
  | [leaf] => leaf
  | one :: two :: rest =>
      let all := one :: two :: rest
      let left := canonicalTreeWithDomain prims domain (all.take (leftCount all.length)) first
      let right := canonicalTreeWithDomain prims domain (all.drop (leftCount all.length))
        (first + leftCount all.length)
      prims.sha256 (domain ++ (bigEndian 8 first ++ (bigEndian 8 all.length ++ (left.val ++ right.val))))
termination_by leaves.length
decreasing_by
  · obtain ⟨level, heq, hlt, _⟩ := leftCount_bounds (show 2 ≤ (one :: two :: rest).length by simp)
    simp only [List.length_take, heq] at *
    omega
  · obtain ⟨level, heq, hlt, _⟩ := leftCount_bounds (show 2 ≤ (one :: two :: rest).length by simp)
    have := Nat.two_pow_pos level
    simp only [List.length_drop, heq] at *
    omega

def fileMerkleRootFromBlockDigests (prims : Primitives) (sizeBytes blockBytes : Nat) (leaves : List Digest) :
    Except Error Digest := do
  ensure (.invalidInput "unsafe verification block size") (blockBytes ≠ 0 && blockBytes ≤ maximumBlockBytes)
  ensure (.invalidInput "verification block count mismatch")
    (leaves.length ≤ maximumBlocks && expectedBlockCount sizeBytes blockBytes == leaves.length)
  let tree :=
    if leaves.isEmpty then prims.sha256 fileEmptyDomain else canonicalTreeWithDomain prims fileNodeDomain leaves 0
  .ok (fileRoot prims blockBytes sizeBytes leaves.length tree)

def blockDigests (prims : Primitives) (payload : List UInt8) (blockBytes : Nat) : List Digest :=
  (chunks blockBytes payload).mapIdx (hashLeaf prims)

def fileMerkleRoot (prims : Primitives) (payload : List UInt8) (blockBytes : Nat) : Except Error Digest := do
  ensure (.invalidInput "unsafe verification block size") (blockBytes ≠ 0 && blockBytes ≤ maximumBlockBytes)
  -- `payload.len().div_ceil(block_bytes)`
  ensure (.invalidInput "verification block limit exceeded")
    ((payload.length + blockBytes - 1) / blockBytes ≤ maximumBlocks)
  fileMerkleRootFromBlockDigests prims payload.length blockBytes (blockDigests prims payload blockBytes)

end FileMerkle

/-- A file under authentication; `subtrees` holds the most recent subtree first. -/
structure FileMerkleAccumulator where
  blockBytes : Nat
  sizeBytes : Nat
  blockCount : Nat
  finalBlockSeen : Bool
  subtrees : List FileSubtree

namespace FileMerkleAccumulator

open FileMerkle

def new (blockBytes : Nat) : Except Error FileMerkleAccumulator := do
  ensure (.invalidInput "unsafe verification block size") (blockBytes ≠ 0 && blockBytes ≤ maximumBlockBytes)
  .ok ⟨blockBytes, 0, 0, false, []⟩

/-- The merge loop of `push_block`: combine equally sized neighbours, then retain the node. -/
def pushSubtree (prims : Primitives) : List FileSubtree → FileSubtree → Except Error (List FileSubtree)
  | [], node => .ok [node]
  | left :: rest, node =>
      if left.leaves = node.leaves then do
        let merged ← mergeSubtrees prims fileNodeDomain left node
        pushSubtree prims rest merged
      else .ok (node :: left :: rest)

def pushBlock (prims : Primitives) (accumulator : FileMerkleAccumulator) (payload : List UInt8) :
    Except Error FileMerkleAccumulator := do
  ensure (.invalidInput "invalid verification block length")
    (payload.length ≠ 0 && payload.length ≤ accumulator.blockBytes)
  ensure (.invalidInput "verification block follows final block") (!accumulator.finalBlockSeen)
  ensure (.invalidInput "verification block limit exceeded") (accumulator.blockCount < maximumBlocks)
  let sizeBytes ← (checkedAdd accumulator.sizeBytes payload.length).orFail (.invalidInput "file size overflow")
  let subtrees ← pushSubtree prims accumulator.subtrees
    ⟨accumulator.blockCount, 1, hashLeaf prims accumulator.blockCount payload⟩
  .ok ⟨accumulator.blockBytes, sizeBytes, accumulator.blockCount + 1, payload.length < accumulator.blockBytes, subtrees⟩

/-- The merge loop of `finish`: combine the remaining subtrees from the right. -/
def foldSubtrees (prims : Primitives) : FileSubtree → List FileSubtree → Except Error FileSubtree
  | right, [] => .ok right
  | right, left :: rest => do
      let merged ← mergeSubtrees prims fileNodeDomain left right
      foldSubtrees prims merged rest

def finish (prims : Primitives) (accumulator : FileMerkleAccumulator) : Except Error Digest := do
  ensure (.invalidInput "verification block count mismatch")
    (expectedBlockCount accumulator.sizeBytes accumulator.blockBytes == accumulator.blockCount)
  let tree ←
    match accumulator.subtrees with
    | [] => .ok (prims.sha256 fileEmptyDomain)
    | right :: rest => do
        let subtree ← foldSubtrees prims right rest
        .ok subtree.digest
  .ok (fileRoot prims accumulator.blockBytes accumulator.sizeBytes accumulator.blockCount tree)

/-- Push a list of blocks in order. -/
def pushAll (prims : Primitives) :
    FileMerkleAccumulator → List (List UInt8) → Except Error FileMerkleAccumulator
  | accumulator, [] => .ok accumulator
  | accumulator, block :: blocks => do
      let accumulator ← pushBlock prims accumulator block
      pushAll prims accumulator blocks

end FileMerkleAccumulator

/-! ### Splitting at a power of two -/

namespace FileMerkle

theorem leftCount_eq {leaves level : Nat} (hlower : 2 ^ level < leaves) (hupper : leaves ≤ 2 * 2 ^ level) :
    leftCount leaves = 2 ^ level := by
  have hpos := Nat.two_pow_pos level
  obtain ⟨found, heq, hlower', hupper'⟩ := leftCount_bounds (show 2 ≤ leaves by omega)
  have hsame : found = level := by
    apply Nat.le_antisymm
    · have hlt : 2 ^ found < 2 ^ (level + 1) := by
        rw [Nat.pow_succ]
        omega
      have := (Nat.pow_lt_pow_iff_right (by decide)).mp hlt
      omega
    · have hlt : 2 ^ level < 2 ^ (found + 1) := by
        rw [Nat.pow_succ]
        omega
      have := (Nat.pow_lt_pow_iff_right (by decide)).mp hlt
      omega
  rw [heq, hsame]

/-- A full left half and anything that fits on its right form one canonical tree. -/
theorem canonicalTreeWithDomain_append (prims : Primitives) (domain : List UInt8) {left right : List Digest}
    {level : Nat} (hleft : left.length = 2 ^ level) (hright : 0 < right.length) (hfits : right.length ≤ 2 ^ level)
    (first : Nat) :
    canonicalTreeWithDomain prims domain (left ++ right) first =
      prims.sha256 (domain ++ (bigEndian 8 first ++ (bigEndian 8 (left.length + right.length) ++
        ((canonicalTreeWithDomain prims domain left first).val ++
          (canonicalTreeWithDomain prims domain right (first + left.length)).val)))) := by
  have hpos := Nat.two_pow_pos level
  have hlength : (left ++ right).length = left.length + right.length := List.length_append
  have hsplit : leftCount (left ++ right).length = left.length := by
    rw [hleft]
    apply leftCount_eq
    · omega
    · omega
  obtain ⟨one, two, rest, hall⟩ : ∃ one two rest, left ++ right = one :: two :: rest := by
    match hcase : left ++ right with
    | [] => simp [hcase] at hlength; omega
    | [_] => simp [hcase] at hlength; omega
    | one :: two :: rest => exact ⟨one, two, rest, rfl⟩
  rw [hall] at hsplit hlength ⊢
  rw [canonicalTreeWithDomain, hsplit, ← hall, List.take_left, List.drop_left, List.length_append]

/-! ### Subtrees over their leaves -/

/-- The canonical subtree over a block of leaves. -/
def subtreeOf (prims : Primitives) (domain : List UInt8) (block : List Digest) (first : Nat) : FileSubtree :=
  ⟨first, block.length, canonicalTreeWithDomain prims domain block first⟩

/-- Merging a full subtree with one that fits beside it gives the canonical subtree over both. -/
theorem subtreeOf_summary (prims : Primitives) (domain : List UInt8) :
    CarryStack.Summary FileSubtree.leaves (mergeSubtrees prims domain) (2 ^ 64) (subtreeOf prims domain) where
  size_node := fun _ _ => rfl
  merge_node := by
    intro left right level first hleft hright hfits hbound
    have hfirst : checkedAdd first left.length = some (first + left.length) := if_pos (by omega)
    have hleaves : checkedAdd left.length right.length = some (left.length + right.length) := if_pos (by omega)
    simp only [mergeSubtrees, subtreeOf, hfirst, hleaves, beq_self_eq_true, ensure_true, ok_bind, Option.orFail,
      nodePreimage]
    rw [canonicalTreeWithDomain_append prims domain hleft hright hfits, List.length_append]

section Stacked

variable {prims : Primitives} {domain : List UInt8} {stack : List FileSubtree} {levels : List Nat}
  {leaves : List Digest}

theorem stacked_digest (h : CarryStack.Stacked (subtreeOf prims domain) stack levels leaves) {subtree : FileSubtree}
    (hmem : subtree ∈ stack) :
    subtree.digest = canonicalTreeWithDomain prims domain
      ((leaves.drop subtree.first).take subtree.leaves) subtree.first := by
  obtain ⟨first, count, _, hcount, rfl⟩ := h.node_eq hmem
  simp only [subtreeOf, hcount]

theorem stacked_contiguous (h : CarryStack.Stacked (subtreeOf prims domain) stack levels leaves) :
    DirectoryMerkleAccumulator.Contiguous stack leaves.length := by
  induction h with
  | nil => rfl
  | cons _ _ _ ih => exact ⟨List.length_append.symm, ih⟩

end Stacked

/-! ### Blocks of a payload -/

theorem chunks_nil (size : Nat) : chunks size [] = [] := by
  rw [chunks, dif_neg]
  simp

theorem chunks_cons {size : Nat} (hsize : 0 < size) {payload : List UInt8} (hpayload : payload ≠ []) :
    chunks size payload = payload.take size :: chunks size (payload.drop size) := by
  rw [chunks, dif_pos ⟨hpayload, hsize⟩]

/-- Blocks as an accumulator accepts them: full ones, and a last one that may be short. -/
def Consecutive (size : Nat) : List (List UInt8) → Prop
  | [] => True
  | block :: rest => 0 < block.length ∧ block.length ≤ size ∧ (rest ≠ [] → block.length = size) ∧ Consecutive size rest

theorem Consecutive.take {size : Nat} {blocks : List (List UInt8)} (h : Consecutive size blocks) (count : Nat) :
    Consecutive size (blocks.take count) := by
  induction blocks generalizing count with
  | nil => simpa using h
  | cons block rest ih =>
      cases count with
      | zero => trivial
      | succ count =>
          refine ⟨h.1, h.2.1, ?_, ih h.2.2.2 count⟩
          intro hrest
          apply h.2.2.1
          intro hnil
          rw [hnil, List.take_nil] at hrest
          exact hrest rfl

theorem chunks_induction {size : Nat} (hsize : 0 < size) {motive : List UInt8 → Prop} (hnil : motive [])
    (hcons : ∀ payload, payload ≠ [] → motive (payload.drop size) → motive payload) (payload : List UInt8) :
    motive payload := by
  induction hlength : payload.length using Nat.strongRecOn generalizing payload with
  | ind length ih =>
      by_cases hempty : payload = []
      · rw [hempty]
        exact hnil
      · apply hcons payload hempty
        have hpos := List.length_pos_iff.mpr hempty
        exact ih (payload.drop size).length (by rw [List.length_drop]; omega) _ rfl

theorem chunks_flatten {size : Nat} (hsize : 0 < size) (payload : List UInt8) : (chunks size payload).flatten = payload := by
  induction payload using chunks_induction hsize with
  | hnil => rw [chunks_nil, List.flatten_nil]
  | hcons payload hpayload ih => rw [chunks_cons hsize hpayload, List.flatten_cons, ih, List.take_append_drop]

theorem chunks_consecutive {size : Nat} (hsize : 0 < size) (payload : List UInt8) :
    Consecutive size (chunks size payload) := by
  induction payload using chunks_induction hsize with
  | hnil =>
      rw [chunks_nil]
      trivial
  | hcons payload hpayload ih =>
      have hpos := List.length_pos_iff.mpr hpayload
      rw [chunks_cons hsize hpayload]
      refine ⟨by rw [List.length_take]; omega, by rw [List.length_take]; omega, ?_, ih⟩
      intro hrest
      have hmore : payload.drop size ≠ [] := by
        intro hnil
        rw [hnil, chunks_nil] at hrest
        exact hrest rfl
      have := List.length_pos_iff.mpr hmore
      rw [List.length_drop] at this
      rw [List.length_take]
      omega

theorem chunks_length {size : Nat} (hsize : 0 < size) (payload : List UInt8) :
    (chunks size payload).length = expectedBlockCount payload.length size := by
  induction payload using chunks_induction hsize with
  | hnil =>
      rw [chunks_nil]
      rfl
  | hcons payload hpayload ih =>
      have hpos := List.length_pos_iff.mpr hpayload
      have hcount : expectedBlockCount payload.length size = 1 + (payload.length - 1) / size := if_neg (by omega)
      rw [chunks_cons hsize hpayload, List.length_cons, ih, hcount, List.length_drop, expectedBlockCount]
      split_ifs with hlast
      · rw [Nat.div_eq_of_lt (by omega)]
      · have hstep : payload.length - 1 = payload.length - size - 1 + size := by omega
        rw [hstep, Nat.add_div_right _ hsize]
        omega

end FileMerkle

/-! ### Streaming -/

namespace FileMerkleAccumulator

open FileMerkle

theorem pushSubtree_eq_carry (prims : Primitives) :
    pushSubtree prims = CarryStack.carry FileSubtree.leaves (mergeSubtrees prims fileNodeDomain) := by
  funext stack node
  induction stack generalizing node with
  | nil => rfl
  | cons left rest ih => simp only [pushSubtree, CarryStack.carry, ih]

theorem foldSubtrees_eq_collapse (prims : Primitives) :
    foldSubtrees prims = CarryStack.collapse (mergeSubtrees prims fileNodeDomain) := by
  funext right stack
  induction stack generalizing right with
  | nil => rfl
  | cons left rest ih => simp only [foldSubtrees, CarryStack.collapse, ih]

/-- What holds after some blocks: full ones so far unless the last one was short. -/
structure Streamed (prims : Primitives) (size : Nat) (accumulator : FileMerkleAccumulator)
    (blocks : List (List UInt8)) : Prop where
  blockBytes : accumulator.blockBytes = size
  sizeBytes : accumulator.sizeBytes = blocks.flatten.length
  blockCount : accumulator.blockCount = blocks.length
  stacked : ∃ levels, CarryStack.Stacked (subtreeOf prims fileNodeDomain) accumulator.subtrees levels
    (blocks.mapIdx (hashLeaf prims))

theorem Streamed.pushBlock {prims : Primitives} {size : Nat} (hsize : size ≤ maximumBlockBytes)
    {accumulator : FileMerkleAccumulator} {blocks : List (List UInt8)} (h : Streamed prims size accumulator blocks)
    (hseen : accumulator.finalBlockSeen = false) (hlimit : blocks.length < maximumBlocks)
    (hlength : blocks.flatten.length ≤ blocks.length * size) {block : List UInt8} (hblock : 0 < block.length)
    (hfits : block.length ≤ size) :
    ∃ next, accumulator.pushBlock prims block = .ok next ∧ Streamed prims size next (blocks ++ [block]) ∧
      next.finalBlockSeen = decide (block.length < size) := by
  obtain ⟨levels, hstacked⟩ := h.stacked
  have htotal : blocks.flatten.length + block.length < 2 ^ 64 := by
    have hproduct : blocks.length * size ≤ maximumBlocks * maximumBlockBytes := Nat.mul_le_mul hlimit.le hsize
    simp only [maximumBlocks, maximumBlockBytes] at *
    omega
  have hadd : checkedAdd accumulator.sizeBytes block.length = some (blocks.flatten.length + block.length) := by
    rw [checkedAdd, h.sizeBytes, if_pos htotal]
  let leaf := hashLeaf prims blocks.length block
  have hleaf : (⟨accumulator.blockCount, 1, hashLeaf prims accumulator.blockCount block⟩ : FileSubtree) =
      subtreeOf prims fileNodeDomain [leaf] (blocks.mapIdx (hashLeaf prims)).length := by
    rw [h.blockCount, List.length_mapIdx, subtreeOf, List.length_singleton, canonicalTreeWithDomain]
  have hshort : (blocks.mapIdx (hashLeaf prims)).length + [leaf].length < 2 ^ 64 := by
    rw [List.length_mapIdx, List.length_singleton]
    simp only [maximumBlocks] at hlimit
    omega
  obtain ⟨subtrees, levels', hpush, hnext⟩ := hstacked.carry (subtreeOf_summary prims fileNodeDomain)
    (show [leaf].length = 2 ^ 0 from rfl) (fun _ _ => Nat.zero_le _) hshort
  refine ⟨⟨size, blocks.flatten.length + block.length, blocks.length + 1, decide (block.length < size), subtrees⟩, ?_, ?_,
    rfl⟩
  · have hguard : (decide (block.length ≠ 0) && decide (block.length ≤ size)) = true := by
      rw [Bool.and_eq_true, decide_eq_true_eq, decide_eq_true_eq]
      exact ⟨by omega, hfits⟩
    rw [FileMerkleAccumulator.pushBlock, h.blockBytes, hguard, hseen, hadd, hleaf, pushSubtree_eq_carry, hpush,
      h.blockCount, decide_eq_true hlimit]
    rfl
  · refine ⟨rfl, ?_, ?_, levels', ?_⟩
    · rw [List.flatten_append, List.length_append, List.flatten_singleton]
    · rw [List.length_append, List.length_singleton]
    · rw [List.mapIdx_append, List.mapIdx_singleton, Nat.zero_add]
      exact hnext

theorem Streamed.pushAll {prims : Primitives} {size : Nat} (hsize : size ≤ maximumBlockBytes)
    {accumulator : FileMerkleAccumulator} {seen blocks : List (List UInt8)}
    (h : Streamed prims size accumulator seen) (hopen : blocks ≠ [] → accumulator.finalBlockSeen = false)
    (hlength : seen.flatten.length ≤ seen.length * size) (hblocks : Consecutive size blocks)
    (hlimit : seen.length + blocks.length ≤ maximumBlocks) :
    ∃ next, accumulator.pushAll prims blocks = .ok next ∧ Streamed prims size next (seen ++ blocks) := by
  induction blocks generalizing accumulator seen with
  | nil => exact ⟨accumulator, rfl, by rw [List.append_nil]; exact h⟩
  | cons block rest ih =>
      obtain ⟨hpos, hfits, hfull, hrest⟩ := hblocks
      rw [List.length_cons] at hlimit
      obtain ⟨middle, hpush, hmiddle, hseen⟩ := h.pushBlock hsize (hopen (List.cons_ne_nil _ _)) (by omega) hlength hpos
        hfits
      have hopen' : rest ≠ [] → middle.finalBlockSeen = false := by
        intro hmore
        rw [hseen, hfull hmore]
        exact decide_eq_false (Nat.lt_irrefl _)
      have hlength' : (seen ++ [block]).flatten.length ≤ (seen ++ [block]).length * size := by
        rw [List.flatten_append, List.length_append, List.length_append, List.flatten_singleton, List.length_singleton,
          Nat.succ_mul]
        omega
      obtain ⟨next, hall, hnext⟩ := ih hmiddle hopen' hlength' hrest (by
        rw [List.length_append, List.length_singleton]
        omega)
      refine ⟨next, ?_, ?_⟩
      · rw [FileMerkleAccumulator.pushAll, hpush, ok_bind, hall]
      · rw [List.append_assoc, List.singleton_append] at hnext
        exact hnext

/-- The accumulator over consecutive blocks finishes with the canonical tree over their digests. -/
theorem Streamed.finish {prims : Primitives} {size : Nat} {accumulator : FileMerkleAccumulator}
    {blocks : List (List UInt8)} (h : Streamed prims size accumulator blocks)
    (hcount : expectedBlockCount blocks.flatten.length size = blocks.length) (hlimit : blocks.length ≤ maximumBlocks) :
    accumulator.finish prims = .ok (fileRoot prims size blocks.flatten.length blocks.length
      (if (blocks.mapIdx (hashLeaf prims)).isEmpty then prims.sha256 fileEmptyDomain
        else canonicalTreeWithDomain prims fileNodeDomain (blocks.mapIdx (hashLeaf prims)) 0)) := by
  obtain ⟨levels, hstacked⟩ := h.stacked
  have hlength : (blocks.mapIdx (hashLeaf prims)).length < 2 ^ 64 := by
    rw [List.length_mapIdx]
    simp only [maximumBlocks] at hlimit
    omega
  generalize blocks.mapIdx (hashLeaf prims) = digests at hstacked hlength ⊢
  rw [FileMerkleAccumulator.finish, h.sizeBytes, h.blockBytes, h.blockCount, hcount, beq_self_eq_true, ensure_true,
    ok_bind, foldSubtrees_eq_collapse]
  generalize accumulator.subtrees = subtrees at hstacked
  cases subtrees with
  | nil =>
      cases hstacked
      rfl
  | cons right rest =>
      obtain ⟨hfold, hnonempty⟩ := hstacked.collapse_top (subtreeOf_summary prims fileNodeDomain) hlength
      have hfilled : digests.isEmpty = false := by simpa using hnonempty
      simp only [hfold, ok_bind, hfilled]
      rfl

theorem new_eq_ok {size : Nat} (hpos : 0 < size) (hsize : size ≤ maximumBlockBytes) :
    new size = .ok ⟨size, 0, 0, false, []⟩ := by
  have hguard : (decide (size ≠ 0) && decide (size ≤ maximumBlockBytes)) = true := by
    rw [Bool.and_eq_true, decide_eq_true_eq, decide_eq_true_eq]
    exact ⟨by omega, hsize⟩
  rw [new, hguard]
  rfl

theorem streamed_new (prims : Primitives) (size : Nat) : Streamed prims size ⟨size, 0, 0, false, []⟩ [] :=
  ⟨rfl, rfl, rfl, [], .nil⟩

/-- The retained subtrees are the canonical ones of the binary decomposition of the number of leaves. -/
structure HoldsCanonical (prims : Primitives) (subtrees : List FileSubtree) (leaves : List Digest) : Prop where
  sizes : subtrees.map FileSubtree.leaves = leaves.length.bitIndices.map fun level => 2 ^ level
  contiguous : DirectoryMerkleAccumulator.Contiguous subtrees leaves.length
  digests : ∀ subtree ∈ subtrees, subtree.digest = canonicalTreeWithDomain prims fileNodeDomain
    ((leaves.drop subtree.first).take subtree.leaves) subtree.first

theorem Streamed.holdsCanonical {prims : Primitives} {size : Nat} {accumulator : FileMerkleAccumulator}
    {blocks : List (List UInt8)} (h : Streamed prims size accumulator blocks) :
    HoldsCanonical prims accumulator.subtrees (blocks.mapIdx (hashLeaf prims)) := by
  obtain ⟨levels, hstacked⟩ := h.stacked
  refine ⟨?_, stacked_contiguous hstacked, fun subtree hmem => stacked_digest hstacked hmem⟩
  rw [hstacked.sizes (subtreeOf_summary prims fileNodeDomain), ← hstacked.levels_eq]

/-- Streaming a payload block by block gives its batch root, and at every point the accumulator holds exactly the
canonical subtrees of the blocks seen. -/
theorem streaming_eq_batch (prims : Primitives) (payload : List UInt8) {blockBytes : Nat} (hpos : 0 < blockBytes)
    (hsize : blockBytes ≤ maximumBlockBytes) (hlimit : (chunks blockBytes payload).length ≤ maximumBlocks) :
    (∃ root, (do
        let accumulator ← new blockBytes
        let accumulator ← accumulator.pushAll prims (chunks blockBytes payload)
        accumulator.finish prims) = .ok root ∧
      fileMerkleRoot prims payload blockBytes = .ok root ∧
      fileMerkleRootFromBlockDigests prims payload.length blockBytes (blockDigests prims payload blockBytes) =
        .ok root) ∧
    ∀ count, ∃ accumulator, (do
        let accumulator ← new blockBytes
        accumulator.pushAll prims ((chunks blockBytes payload).take count)) = .ok accumulator ∧
      HoldsCanonical prims accumulator.subtrees (((chunks blockBytes payload).take count).mapIdx (hashLeaf prims)) := by
  have hblocks := chunks_consecutive hpos payload
  have hcount := chunks_length hpos payload
  have hflatten := chunks_flatten hpos payload
  have hguard : (decide (blockBytes ≠ 0) && decide (blockBytes ≤ maximumBlockBytes)) = true := by
    rw [Bool.and_eq_true, decide_eq_true_eq, decide_eq_true_eq]
    exact ⟨by omega, hsize⟩
  constructor
  · obtain ⟨accumulator, hpush, hstreamed⟩ := (streamed_new prims blockBytes).pushAll hsize (fun _ => rfl) (by simp)
      hblocks (by rw [List.length_nil]; omega)
    rw [List.nil_append] at hstreamed
    have hfinish := hstreamed.finish (by rw [hflatten, hcount]) hlimit
    have hdigests : fileMerkleRootFromBlockDigests prims payload.length blockBytes
        (blockDigests prims payload blockBytes) = accumulator.finish prims := by
      have htest : (decide ((blockDigests prims payload blockBytes).length ≤ maximumBlocks) &&
          expectedBlockCount payload.length blockBytes == (blockDigests prims payload blockBytes).length) = true := by
        rw [blockDigests, List.length_mapIdx, hcount, beq_self_eq_true, Bool.and_true, decide_eq_true_eq, ← hcount]
        exact hlimit
      rw [fileMerkleRootFromBlockDigests, hguard, htest, hfinish, hflatten, blockDigests, List.length_mapIdx]
      rfl
    refine ⟨_, ?_, ?_, hdigests.trans hfinish⟩
    · rw [new_eq_ok hpos hsize, ok_bind, hpush, ok_bind]
      exact hfinish
    · have hceil : (payload.length + blockBytes - 1) / blockBytes ≤ maximumBlocks := by
        rw [hcount, expectedBlockCount] at hlimit
        split_ifs at hlimit with hempty
        · rw [hempty, Nat.div_eq_of_lt (by omega)]
          exact Nat.zero_le _
        · have hshift : payload.length + blockBytes - 1 = payload.length - 1 + blockBytes := by omega
          rw [hshift, Nat.add_div_right _ hpos]
          omega
      rw [fileMerkleRoot, hguard, decide_eq_true hceil, ensure_true, ok_bind, ensure_true, ok_bind]
      exact hdigests.trans hfinish
  · intro count
    obtain ⟨accumulator, hpush, hstreamed⟩ := (streamed_new prims blockBytes).pushAll hsize (fun _ => rfl) (by simp)
      (hblocks.take count) (by rw [List.length_nil, List.length_take]; omega)
    rw [List.nil_append] at hstreamed
    exact ⟨accumulator, by rw [new_eq_ok hpos hsize, ok_bind, hpush], hstreamed.holdsCanonical⟩

theorem streaming_eq_batch_seven :
    ∃ root, fileMerkleRoot ⟨polynomialDigest, fun _ => true⟩ [1, 2, 3, 4, 5, 6, 7] 2 = .ok root := by
  obtain ⟨⟨root, _, hbatch, _⟩, _⟩ := streaming_eq_batch ⟨polynomialDigest, fun _ => true⟩ [1, 2, 3, 4, 5, 6, 7]
    (show 0 < 2 by decide) (by decide) (by rw [chunks_length (by decide)]; decide)
  exact ⟨root, hbatch⟩

end FileMerkleAccumulator

end Skydriver
