import Skydriver.Integrity.FileBinding

/-!
# Block manifests

A manifest lists the digests of all blocks of one file version between a header and the file root.  The decoder reads
unchecked lengths from its input, and accepts exactly what the encoder writes.
-/

namespace Skydriver

open Checked FileMerkle

def blockManifestDomain : List UInt8 := utf8 "skydriver.vfs.block-manifest.v1" ++ [0]

/-- Exact immutable identity proved by one canonical block manifest. -/
structure BlockManifestExpectation where
  sizeBytes : UInt64
  blockBytes : UInt64
  blockCount : UInt64
  fileRoot : Digest

/-- Multiplication of unsigned 64-bit integers, absent on overflow. -/
def checkedMul (left right : Nat) : Option Nat := if left * right < 2 ^ 64 then some (left * right) else none

/-- `bytes.get(first..last)`: absent when the range is reversed or ends outside. -/
def getRange (bytes : List UInt8) (first last : Nat) : Option (List UInt8) :=
  if first ≤ last ∧ last ≤ bytes.length then some ((bytes.drop first).take (last - first)) else none

/-- An array of exactly `width` bytes. -/
def toArray (width : Nat) (bytes : List UInt8) (message : String) : Except Error (Bytes width) :=
  if hlength : bytes.length = width then .ok ⟨bytes, hlength⟩ else .error (.invalidInput message)

/-- Read an integer and move past it. -/
def readU64 (encoded : List UInt8) (offset : Nat) : Except Error (UInt64 × Nat) := do
  let last ← (checkedAdd offset 8).orFail (.invalidInput "encoded integer offset overflows")
  let bytes ← (getRange encoded offset last).orFail (.invalidInput "encoded integer is short")
  let bytes ← toArray 8 bytes "encoded integer width differs"
  .ok (UInt64.ofNat (bigEndianValue bytes.val), last)

/-- Digests back to back. -/
def digestBytes (leaves : List Digest) : List UInt8 := leaves.flatMap fun leaf => leaf.val

/-- Encode one canonical block manifest and its independently derived root. -/
def encodeBlockManifest (prims : Primitives) (sizeBytes blockBytes : UInt64) (leaves : List Digest) :
    Except Error (List UInt8) := do
  ensure (.invalidInput "block manifest digest is zero") (!leaves.contains (.zero 32))
  let root ← fileMerkleRootFromBlockDigests prims sizeBytes.toNat blockBytes.toNat leaves
  let _capacity ← ((checkedAdd blockManifestDomain.length (3 * 8 + 32)).bind fun fixed =>
    (checkedMul leaves.length 32).bind fun digests => checkedAdd fixed digests).orFail
      (.invalidInput "block manifest length overflows")
  .ok (blockManifestDomain ++ (bigEndian 8 sizeBytes.toNat ++ (bigEndian 8 blockBytes.toNat ++
    (bigEndian 8 leaves.length ++ (digestBytes leaves ++ root.val)))))

/-- The digest loop of the decoder; it returns the offset behind the last digest. -/
def readDigests (encoded : List UInt8) : Nat → Nat → Except Error (List Digest × Nat)
  | 0, offset => .ok ([], offset)
  | count + 1, offset => do
      let last ← (checkedAdd offset 32).orFail (.invalidInput "block manifest digest offset overflows")
      let bytes ← (getRange encoded offset last).orFail (.invalidInput "block manifest digest is short")
      let digest ← toArray 32 bytes "block manifest digest width differs"
      ensure (.invalidInput "block manifest digest is zero") (digest ≠ .zero 32)
      let (leaves, offset) ← readDigests encoded count last
      .ok (digest :: leaves, offset)

/-- Validate one complete canonical block manifest against an exact version. -/
def validateBlockManifest (prims : Primitives) (encoded : List UInt8) (expected : BlockManifestExpectation) :
    Except Error Unit := do
  let fixedBytes ← (checkedAdd blockManifestDomain.length (3 * 8 + 32)).orFail
    (.invalidInput "block manifest length overflow")
  ensure (.invalidInput "block manifest domain or length differs")
    (fixedBytes ≤ encoded.length && blockManifestDomain.isPrefixOf encoded)
  let (sizeBytes, offset) ← readU64 encoded blockManifestDomain.length
  let (blockBytes, offset) ← readU64 encoded offset
  let (blockCount, offset) ← readU64 encoded offset
  let digestBytes ← (checkedMul blockCount.toNat 32).orFail
    (.invalidInput "block manifest digest length overflows")
  ensure (.invalidInput "block manifest layout differs")
    (blockCount.toNat ≤ maximumBlocks && checkedAdd fixedBytes digestBytes == some encoded.length &&
      sizeBytes == expected.sizeBytes && blockBytes == expected.blockBytes && blockCount == expected.blockCount)
  let (leaves, offset) ← readDigests encoded blockCount.toNat offset
  let embedded ← (getRange encoded offset encoded.length).orFail (.invalidInput "block manifest root is missing")
  let embeddedRoot ← toArray 32 embedded "block manifest root width differs"
  let root ← fileMerkleRootFromBlockDigests prims sizeBytes.toNat blockBytes.toNat leaves
  ensure (.invalidInput "block manifest root differs") (embeddedRoot == root && root == expected.fileRoot)

/-! ### Reading at an offset -/

theorem blockManifestDomain_length : blockManifestDomain.length = 32 := by decide

/-- A range that starts behind `front` and covers `field`. -/
theorem getRange_append (front field rest : List UInt8) :
    getRange (front ++ (field ++ rest)) front.length (front.length + field.length) = some field := by
  rw [getRange, if_pos (by simp), List.drop_left, Nat.add_sub_cancel_left, List.take_left]

theorem getRange_split {bytes : List UInt8} {first last : Nat} {field : List UInt8}
    (h : getRange bytes first last = some field) :
    ∃ front rest, bytes = front ++ (field ++ rest) ∧ front.length = first ∧ last = first + field.length := by
  rw [getRange] at h
  split_ifs at h with hrange
  rw [Option.some.injEq] at h
  refine ⟨bytes.take first, (bytes.drop first).drop (last - first), ?_, ?_, ?_⟩
  · rw [← h, List.take_append_drop, List.take_append_drop]
  · rw [List.length_take]
    omega
  · rw [← h, List.length_take, List.length_drop]
    omega

theorem toArray_eq_ok {width : Nat} {bytes : List UInt8} {message : String} {found : Bytes width} :
    toArray width bytes message = .ok found ↔ bytes = found.val := by
  rw [toArray]
  split_ifs with hlength
  · constructor
    · intro h
      exact congrArg Subtype.val (Except.ok.inj h)
    · intro h
      exact congrArg Except.ok (Bytes.ext h)
  · constructor
    · intro h
      simp at h
    · intro h
      simp [h] at hlength

/-- Behind `front`, below the end of the address space, an integer is read exactly where its eight bytes stand. -/
theorem readU64_eq_ok {front back : List UInt8} (hfront : front.length + 8 < 2 ^ 64) {value : UInt64} {next : Nat} :
    readU64 (front ++ back) front.length = .ok (value, next) ↔
      next = front.length + 8 ∧ ∃ rest, back = bigEndian 8 value.toNat ++ rest := by
  have hnext : checkedAdd front.length 8 = some (front.length + 8) := if_pos hfront
  simp only [readU64, hnext, some_orFail, ok_bind, bind_eq_ok, orFail_eq_ok, toArray_eq_ok, Except.ok.injEq,
    Prod.mk.injEq]
  constructor
  · rintro ⟨field, hrange, bytes, rfl, hvalue, rfl⟩
    obtain ⟨front', rest, hsplit, hlength, _⟩ := getRange_split hrange
    obtain ⟨_, hback⟩ := List.append_inj hsplit hlength.symm
    have hbound := bigEndianValue_lt bytes.val
    have hwritten := bigEndian_bigEndianValue bytes.val
    rw [bytes.length_val] at hbound hwritten
    refine ⟨rfl, rest, ?_⟩
    rw [hback, ← hvalue, UInt64.toNat_ofNat_of_lt' hbound, hwritten]
  · rintro ⟨rfl, rest, rfl⟩
    have hrange := getRange_append front (bigEndian 8 value.toNat) rest
    rw [bigEndian_length] at hrange
    refine ⟨bigEndian 8 value.toNat, hrange, ⟨bigEndian 8 value.toNat, by simp⟩, rfl, ?_, rfl⟩
    rw [bigEndianValue_bigEndian value.toNat_lt, UInt64.ofNat_toNat]

theorem readDigests_eq_ok {count : Nat} {front back : List UInt8} (hbound : front.length + 32 * count < 2 ^ 64)
    {leaves : List Digest} {next : Nat} :
    readDigests (front ++ back) count front.length = .ok (leaves, next) ↔
      leaves.length = count ∧ next = front.length + 32 * count ∧ (∀ leaf ∈ leaves, leaf ≠ .zero 32) ∧
      ∃ rest, back = digestBytes leaves ++ rest := by
  induction count generalizing front back leaves next with
  | zero =>
      simp only [readDigests, Except.ok.injEq, Prod.mk.injEq, List.length_eq_zero_iff, Nat.mul_zero, Nat.add_zero]
      constructor
      · rintro ⟨rfl, rfl⟩
        exact ⟨rfl, rfl, by simp, back, rfl⟩
      · rintro ⟨rfl, rfl, _⟩
        exact ⟨rfl, rfl⟩
  | succ count ih =>
      have hnext : checkedAdd front.length 32 = some (front.length + 32) := if_pos (by omega)
      simp only [readDigests, hnext, some_orFail, ok_bind, bind_eq_ok, ensure_eq_ok, orFail_eq_ok, toArray_eq_ok,
        decide_eq_true_eq, Except.ok.injEq, Prod.mk.injEq]
      constructor
      · rintro ⟨field, hrange, digest, rfl, _, hnonzero, ⟨rest, offset⟩, hrest, rfl, rfl⟩
        obtain ⟨front', tail, hsplit, hlength, _⟩ := getRange_split hrange
        obtain ⟨_, hback⟩ := List.append_inj hsplit hlength.symm
        have hwidth : front.length + 32 = (front ++ digest.val).length := by simp
        rw [hback, ← List.append_assoc, hwidth] at hrest
        obtain ⟨hcount, hoffset, hall, after, hafter⟩ := (ih (by rw [← hwidth]; omega)).mp hrest
        refine ⟨by simp [hcount], by rw [hoffset, ← hwidth]; omega, List.forall_mem_cons.mpr ⟨hnonzero, hall⟩, after, ?_⟩
        rw [hback, hafter, digestBytes, digestBytes, List.flatMap_cons, List.append_assoc]
      · rintro ⟨hcount, rfl, hall, after, rfl⟩
        cases leaves with
        | nil => simp at hcount
        | cons digest rest =>
            have hwidth : front.length + 32 = (front ++ digest.val).length := by simp
            have hrange := getRange_append front digest.val (digestBytes rest ++ after)
            rw [digest.length_val] at hrange
            rw [List.forall_mem_cons] at hall
            have hrest : readDigests ((front ++ digest.val) ++ (digestBytes rest ++ after)) count
                (front ++ digest.val).length = .ok (rest, (front ++ digest.val).length + 32 * count) :=
              (ih (by rw [← hwidth]; omega)).mpr ⟨by simpa using hcount, rfl, hall.2, after, rfl⟩
            have hbytes : digestBytes (digest :: rest) ++ after = digest.val ++ (digestBytes rest ++ after) := by
              rw [digestBytes, List.flatMap_cons, List.append_assoc, digestBytes]
            rw [List.append_assoc, ← hwidth] at hrest
            rw [hbytes]
            exact ⟨digest.val, hrange, digest, rfl, (), hall.1, _, hrest, rfl, by omega⟩

/-- Below the end of the input the loop stops at a zero digest or not at all. -/
theorem readDigests_outcome {encoded : List UInt8} {count offset : Nat} (hfits : offset + 32 * count ≤ encoded.length)
    (hbound : offset + 32 * count < 2 ^ 64) :
    (∃ leaves, readDigests encoded count offset = .ok (leaves, offset + 32 * count)) ∨
      readDigests encoded count offset = .error (.invalidInput "block manifest digest is zero") := by
  induction count generalizing offset with
  | zero => exact .inl ⟨[], rfl⟩
  | succ count ih =>
      have hnext : checkedAdd offset 32 = some (offset + 32) := if_pos (by omega)
      have hrange : getRange encoded offset (offset + 32) = some ((encoded.drop offset).take 32) := by
        rw [getRange, if_pos (by omega), Nat.add_sub_cancel_left]
      have hwidth : ((encoded.drop offset).take 32).length = 32 := by
        rw [List.length_take, List.length_drop]
        omega
      obtain ⟨digest, hdigest⟩ : ∃ digest : Digest,
          toArray 32 ((encoded.drop offset).take 32) "block manifest digest width differs" = .ok digest :=
        ⟨⟨(encoded.drop offset).take 32, hwidth⟩, toArray_eq_ok.mpr rfl⟩
      simp only [readDigests, hnext, some_orFail, ok_bind, hrange, hdigest]
      by_cases hzero : digest = .zero 32
      · exact .inr (by simp [hzero, ensure])
      · have hstep : offset + 32 + 32 * count = offset + 32 * (count + 1) := by omega
        simp only [ne_eq, hzero, not_false_eq_true, decide_true, ensure_true, ok_bind]
        rcases @ih (offset + 32) (by omega) (by omega) with ⟨leaves, hrest⟩ | hrest
        · exact .inl ⟨digest :: leaves, by rw [hrest, ok_bind, hstep]⟩
        · exact .inr (by rw [hrest, error_bind])

/-! ### The layout -/

/-- The bytes in front of the digests. -/
def manifestHeader (sizeBytes blockBytes blockCount : UInt64) : List UInt8 :=
  blockManifestDomain ++ (bigEndian 8 sizeBytes.toNat ++ (bigEndian 8 blockBytes.toNat ++
    bigEndian 8 blockCount.toNat))

theorem manifestHeader_length (sizeBytes blockBytes blockCount : UInt64) :
    (manifestHeader sizeBytes blockBytes blockCount).length = 56 := by
  simp [manifestHeader, blockManifestDomain_length]

theorem digestBytes_length (leaves : List Digest) : (digestBytes leaves).length = 32 * leaves.length := by
  induction leaves with
  | nil => rfl
  | cons leaf leaves ih =>
      simp only [digestBytes, List.flatMap_cons, List.length_append, leaf.length_val, List.length_cons] at ih ⊢
      omega

theorem exists_manifestHeader {encoded : List UInt8} (hlength : 88 ≤ encoded.length)
    (hdomain : blockManifestDomain.isPrefixOf encoded = true) :
    ∃ sizeBytes blockBytes blockCount back,
      encoded = manifestHeader sizeBytes blockBytes blockCount ++ back ∧ 32 ≤ back.length := by
  obtain ⟨tail, rfl⟩ := List.isPrefixOf_iff_prefix.mp hdomain
  rw [List.length_append, blockManifestDomain_length] at hlength
  -- any eight bytes are the encoding of an integer
  have hword : ∀ bytes : List UInt8, 8 ≤ bytes.length → ∃ (value : UInt64) (rest : List UInt8),
      bytes = bigEndian 8 value.toNat ++ rest ∧ rest.length = bytes.length - 8 := by
    intro bytes hbytes
    have hwidth : (bytes.take 8).length = 8 := by
      rw [List.length_take]
      omega
    have hbound := bigEndianValue_lt (bytes.take 8)
    have hwritten := bigEndian_bigEndianValue (bytes.take 8)
    rw [hwidth] at hbound hwritten
    refine ⟨UInt64.ofNat (bigEndianValue (bytes.take 8)), bytes.drop 8, ?_, List.length_drop⟩
    rw [UInt64.toNat_ofNat_of_lt' hbound, hwritten, List.take_append_drop]
  obtain ⟨sizeBytes, first, rfl, hfirst⟩ := hword tail (by omega)
  simp only [List.length_append, bigEndian_length] at hlength hfirst
  obtain ⟨blockBytes, second, rfl, hsecond⟩ := hword first (by omega)
  simp only [List.length_append, bigEndian_length] at hlength hsecond
  obtain ⟨blockCount, back, rfl, hback⟩ := hword second (by omega)
  simp only [List.length_append, bigEndian_length] at hlength hback
  refine ⟨sizeBytes, blockBytes, blockCount, back, ?_, by omega⟩
  simp only [manifestHeader, List.append_assoc]

/-- Behind a header the decoder checks the layout, reads the digests and compares the root. -/
theorem validateBlockManifest_header (prims : Primitives) (sizeBytes blockBytes blockCount : UInt64)
    {back : List UInt8} (hback : 32 ≤ back.length) (expected : BlockManifestExpectation) :
    validateBlockManifest prims (manifestHeader sizeBytes blockBytes blockCount ++ back) expected = (do
      let encoded := manifestHeader sizeBytes blockBytes blockCount ++ back
      let digestBytes ← (checkedMul blockCount.toNat 32).orFail
        (.invalidInput "block manifest digest length overflows")
      ensure (.invalidInput "block manifest layout differs")
        (blockCount.toNat ≤ maximumBlocks && checkedAdd 88 digestBytes == some encoded.length &&
          sizeBytes == expected.sizeBytes && blockBytes == expected.blockBytes && blockCount == expected.blockCount)
      let (leaves, offset) ← readDigests encoded blockCount.toNat 56
      let embedded ← (getRange encoded offset encoded.length).orFail (.invalidInput "block manifest root is missing")
      let embeddedRoot ← toArray 32 embedded "block manifest root width differs"
      let root ← fileMerkleRootFromBlockDigests prims sizeBytes.toNat blockBytes.toNat leaves
      ensure (.invalidInput "block manifest root differs") (embeddedRoot == root && root == expected.fileRoot)) := by
  have hfixed : checkedAdd blockManifestDomain.length (3 * 8 + 32) = some 88 := by
    rw [blockManifestDomain_length]
    rfl
  have hlong : (decide (88 ≤ (manifestHeader sizeBytes blockBytes blockCount ++ back).length)) = true := by
    rw [List.length_append, manifestHeader_length]
    simpa using by omega
  have hdomain : blockManifestDomain.isPrefixOf (manifestHeader sizeBytes blockBytes blockCount ++ back) = true := by
    rw [List.isPrefixOf_iff_prefix, manifestHeader, List.append_assoc]
    exact List.prefix_append _ _
  have hsize : readU64 (manifestHeader sizeBytes blockBytes blockCount ++ back) blockManifestDomain.length =
      .ok (sizeBytes, 40) := by
    rw [manifestHeader, List.append_assoc]
    refine (readU64_eq_ok (by rw [blockManifestDomain_length]; decide)).mpr ⟨?_, _, List.append_assoc _ _ _⟩
    rw [blockManifestDomain_length]
  have hblock : readU64 (manifestHeader sizeBytes blockBytes blockCount ++ back) 40 = .ok (blockBytes, 48) := by
    have hfront : (blockManifestDomain ++ bigEndian 8 sizeBytes.toNat).length = 40 := by
      simp [blockManifestDomain_length]
    have hsplit : manifestHeader sizeBytes blockBytes blockCount ++ back =
        (blockManifestDomain ++ bigEndian 8 sizeBytes.toNat) ++ (bigEndian 8 blockBytes.toNat ++
          (bigEndian 8 blockCount.toNat ++ back)) := by simp only [manifestHeader, List.append_assoc]
    rw [hsplit, ← hfront]
    exact (readU64_eq_ok (by rw [hfront]; decide)).mpr ⟨by rw [hfront], _, rfl⟩
  have hcount : readU64 (manifestHeader sizeBytes blockBytes blockCount ++ back) 48 = .ok (blockCount, 56) := by
    have hfront : (blockManifestDomain ++ (bigEndian 8 sizeBytes.toNat ++ bigEndian 8 blockBytes.toNat)).length = 48 := by
      simp [blockManifestDomain_length]
    have hsplit : manifestHeader sizeBytes blockBytes blockCount ++ back =
        (blockManifestDomain ++ (bigEndian 8 sizeBytes.toNat ++ bigEndian 8 blockBytes.toNat)) ++
          (bigEndian 8 blockCount.toNat ++ back) := by simp only [manifestHeader, List.append_assoc]
    rw [hsplit, ← hfront]
    exact (readU64_eq_ok (by rw [hfront]; decide)).mpr ⟨by rw [hfront], _, rfl⟩
  simp only [validateBlockManifest, hfixed, some_orFail, ok_bind, hlong, hdomain, Bool.and_self, ensure_true, hsize,
    hblock, hcount]

/-! ### Exactness -/

def manifestBytes (sizeBytes blockBytes blockCount : UInt64) (leaves : List Digest) (root : Digest) : List UInt8 :=
  manifestHeader sizeBytes blockBytes blockCount ++ (digestBytes leaves ++ root.val)

theorem encodeBlockManifest_eq_ok {prims : Primitives} {sizeBytes blockBytes : UInt64} {leaves : List Digest}
    {encoded : List UInt8} :
    encodeBlockManifest prims sizeBytes blockBytes leaves = .ok encoded ↔
      (∀ leaf ∈ leaves, leaf ≠ .zero 32) ∧
      ∃ root, fileMerkleRootFromBlockDigests prims sizeBytes.toNat blockBytes.toNat leaves = .ok root ∧
        encoded = manifestBytes sizeBytes blockBytes (UInt64.ofNat leaves.length) leaves root := by
  have hnonzero : (!leaves.contains (.zero 32)) = true ↔ ∀ leaf ∈ leaves, leaf ≠ .zero 32 := by
    simp only [Bool.not_eq_true', ← Bool.not_eq_true, List.contains_iff_mem]
    exact ⟨fun hmem leaf hleaf hzero => hmem (hzero ▸ hleaf), fun hall hmem => hall _ hmem rfl⟩
  rw [encodeBlockManifest, ensure_bind_eq_ok, bind_eq_ok, hnonzero]
  refine and_congr_right fun _ => exists_congr fun root => and_congr_right fun hroot => ?_
  have hlimit := (fileMerkleRootFromBlockDigests_eq_ok.mp hroot).2.2.1
  simp only [maximumBlocks] at hlimit
  have hcapacity : ((checkedAdd blockManifestDomain.length (3 * 8 + 32)).bind fun fixed =>
      (checkedMul leaves.length 32).bind fun digests => checkedAdd fixed digests) =
        some (88 + leaves.length * 32) := by
    rw [blockManifestDomain_length, checkedMul, if_pos (by omega)]
    exact if_pos (by omega)
  have hcount : (UInt64.ofNat leaves.length).toNat = leaves.length :=
    UInt64.toNat_ofNat_of_lt' (by simp only [UInt64.size]; omega)
  rw [hcapacity, some_orFail, ok_bind, Except.ok.injEq, manifestBytes, manifestHeader, hcount]
  simp only [List.append_assoc, eq_comm]

/-- The decoder accepts exactly the layout of nonzero digests with the expected root. -/
theorem validateBlockManifest_eq_ok {prims : Primitives} {encoded : List UInt8} {expected : BlockManifestExpectation} :
    validateBlockManifest prims encoded expected = .ok () ↔
      ∃ leaves : List Digest, (∀ leaf ∈ leaves, leaf ≠ .zero 32) ∧ leaves.length = expected.blockCount.toNat ∧
        fileMerkleRootFromBlockDigests prims expected.sizeBytes.toNat expected.blockBytes.toNat leaves =
          .ok expected.fileRoot ∧
        encoded = manifestBytes expected.sizeBytes expected.blockBytes expected.blockCount leaves expected.fileRoot := by
  constructor
  · intro h
    have hframe : 88 ≤ encoded.length ∧ blockManifestDomain.isPrefixOf encoded = true := by
      have hfixed : checkedAdd blockManifestDomain.length (3 * 8 + 32) = some 88 := by
        rw [blockManifestDomain_length]
        rfl
      rw [validateBlockManifest, hfixed, some_orFail, ok_bind, ensure_bind_eq_ok, Bool.and_eq_true,
        decide_eq_true_eq] at h
      exact h.1
    obtain ⟨sizeBytes, blockBytes, blockCount, back, rfl, hback⟩ := exists_manifestHeader hframe.1 hframe.2
    rw [validateBlockManifest_header prims _ _ _ hback] at h
    simp only [bind_eq_ok, ensure_eq_ok, orFail_eq_ok, toArray_eq_ok, Bool.and_eq_true, decide_eq_true_eq,
      beq_iff_eq] at h
    obtain ⟨total, htotal, _, ⟨⟨⟨⟨hlimit, hlength⟩, rfl⟩, rfl⟩, rfl⟩, ⟨leaves, offset⟩, hleaves, embedded, hembedded, found,
      rfl, root, hroot, rfl, hexpected⟩ := h
    rw [hexpected] at hroot hembedded
    simp only [maximumBlocks] at hlimit
    have hheader := manifestHeader_length expected.sizeBytes expected.blockBytes expected.blockCount
    rw [← hheader] at hleaves
    obtain ⟨hcount, hoffset, hnonzero, rest, rfl⟩ := (readDigests_eq_ok (by rw [hheader]; omega)).mp hleaves
    refine ⟨leaves, hnonzero, hcount, hroot, ?_⟩
    -- what follows the digests is the root and nothing else
    have hfront : (manifestHeader expected.sizeBytes expected.blockBytes expected.blockCount ++
        digestBytes leaves).length = offset := by
      rw [List.length_append, digestBytes_length, hoffset, hcount]
    obtain ⟨front, tail, hsplit, hfrontLength, hlast⟩ := getRange_split hembedded
    rw [← List.append_assoc] at hsplit
    obtain ⟨_, hrest⟩ := List.append_inj hsplit (by rw [hfront, hfrontLength])
    have htail : tail = [] := by
      have hlengths := congrArg List.length hrest
      simp only [List.length_append, expected.fileRoot.length_val, digestBytes_length] at hlengths hlast hfront
      exact List.length_eq_zero_iff.mp (by omega)
    rw [manifestBytes, hrest, htail, List.append_nil]
  · rintro ⟨leaves, hnonzero, hcount, hroot, rfl⟩
    have hlimit := (fileMerkleRootFromBlockDigests_eq_ok.mp hroot).2.2.1
    have hheader := manifestHeader_length expected.sizeBytes expected.blockBytes expected.blockCount
    have htotal : (manifestHeader expected.sizeBytes expected.blockBytes expected.blockCount ++
        (digestBytes leaves ++ expected.fileRoot.val)).length = 88 + 32 * leaves.length := by
      simp only [List.length_append, hheader, digestBytes_length, expected.fileRoot.length_val]
      omega
    simp only [maximumBlocks] at hlimit
    have hmul : checkedMul expected.blockCount.toNat 32 = some (expected.blockCount.toNat * 32) := if_pos (by omega)
    have hadd : checkedAdd 88 (expected.blockCount.toNat * 32) = some (88 + 32 * leaves.length) := by
      rw [checkedAdd, if_pos (by omega), hcount, Nat.mul_comm]
    have hread : readDigests (manifestHeader expected.sizeBytes expected.blockBytes expected.blockCount ++
        (digestBytes leaves ++ expected.fileRoot.val)) expected.blockCount.toNat 56 =
          .ok (leaves, 56 + 32 * expected.blockCount.toNat) := by
      rw [← hheader]
      exact (readDigests_eq_ok (by rw [hheader]; omega)).mpr ⟨hcount, rfl, hnonzero, expected.fileRoot.val, rfl⟩
    have hembedded : getRange (manifestHeader expected.sizeBytes expected.blockBytes expected.blockCount ++
        (digestBytes leaves ++ expected.fileRoot.val)) (56 + 32 * expected.blockCount.toNat)
          (88 + 32 * leaves.length) = some expected.fileRoot.val := by
      have hrange := getRange_append (manifestHeader expected.sizeBytes expected.blockBytes expected.blockCount ++
        digestBytes leaves) expected.fileRoot.val []
      rw [List.append_nil, List.append_assoc, List.length_append, digestBytes_length, hheader,
        expected.fileRoot.length_val] at hrange
      rw [← hcount, ← hrange]
      congr 1
      omega
    rw [manifestBytes, validateBlockManifest_header prims _ _ _ (by simp)]
    simp only [hmul, some_orFail, ok_bind, htotal, hadd, beq_self_eq_true, Bool.and_true, hread, hembedded,
      toArray_eq_ok.mpr rfl, hroot]
    simp [maximumBlocks, ← hcount, hlimit, ensure]

/-! ### Rejections -/

/-- The reasons for which a manifest is rejected although every offset and length in it was computed exactly.  The
decoder has further messages for offsets that overflow or point outside its input. -/
def manifestRejections : List String :=
  ["block manifest domain or length differs", "block manifest layout differs", "block manifest digest is zero",
    "unsafe verification block size", "verification block count mismatch", "block manifest root differs"]

theorem fileMerkleRootFromBlockDigests_error {prims : Primitives} {sizeBytes blockBytes : Nat} {leaves : List Digest}
    {error : Error} (h : fileMerkleRootFromBlockDigests prims sizeBytes blockBytes leaves = .error error) :
    error = .invalidInput "unsafe verification block size" ∨
      error = .invalidInput "verification block count mismatch" := by
  rw [fileMerkleRootFromBlockDigests, ensure_bind_eq_error, ensure_bind_eq_error] at h
  rcases h with ⟨_, hsize⟩ | ⟨_, ⟨_, hcount⟩ | ⟨_, hroot⟩⟩
  · exact .inl hsize.symm
  · exact .inr hcount.symm
  · simp at hroot

/-- Past the layout check every digest and the root lie inside the input, so only their contents can be wrong. -/
theorem validateBlockManifest_rejects {prims : Primitives} {encoded : List UInt8} {expected : BlockManifestExpectation}
    {error : Error} (h : validateBlockManifest prims encoded expected = .error error) :
    (∃ message ∈ manifestRejections, error = .invalidInput message) ∨
      (error = .invalidInput "block manifest digest length overflows" ∧
        ∃ declared, readU64 encoded 48 = .ok (declared, 56) ∧ 2 ^ 64 ≤ declared.toNat * 32) := by
  have hfixed : checkedAdd blockManifestDomain.length (3 * 8 + 32) = some 88 := by
    rw [blockManifestDomain_length]
    rfl
  by_cases hframe : 88 ≤ encoded.length ∧ blockManifestDomain.isPrefixOf encoded = true
  · obtain ⟨sizeBytes, blockBytes, blockCount, back, rfl, hback⟩ := exists_manifestHeader hframe.1 hframe.2
    have hlength := manifestHeader_length sizeBytes blockBytes blockCount
    rw [validateBlockManifest_header prims _ _ _ hback] at h
    by_cases hmul : blockCount.toNat * 32 < 2 ^ 64
    · left
      simp only [checkedMul, if_pos hmul, some_orFail, ok_bind] at h
      cases hlayout : (decide (blockCount.toNat ≤ maximumBlocks) && checkedAdd 88 (blockCount.toNat * 32) ==
          some (manifestHeader sizeBytes blockBytes blockCount ++ back).length && sizeBytes == expected.sizeBytes &&
            blockBytes == expected.blockBytes && blockCount == expected.blockCount) with
      | false =>
          rw [hlayout] at h
          exact ⟨"block manifest layout differs", by decide, (Except.error.inj h).symm⟩
      | true =>
          rw [hlayout] at h
          simp only [Bool.and_eq_true, decide_eq_true_eq, beq_iff_eq] at hlayout
          simp only [maximumBlocks] at hlayout
          have htotal := hlayout.1.1.1.2
          rw [checkedAdd, if_pos (by omega), Option.some.injEq] at htotal
          rcases readDigests_outcome (show 56 + 32 * blockCount.toNat ≤
            (manifestHeader sizeBytes blockBytes blockCount ++ back).length by omega) (by omega) with
            ⟨leaves, hread⟩ | hread
          · have hrange : getRange (manifestHeader sizeBytes blockBytes blockCount ++ back) (56 + 32 * blockCount.toNat)
                (manifestHeader sizeBytes blockBytes blockCount ++ back).length =
                  some ((manifestHeader sizeBytes blockBytes blockCount ++ back).drop (56 + 32 * blockCount.toNat)) := by
              rw [getRange, if_pos (by omega), ← List.length_drop, List.take_length]
            obtain ⟨root, hroot⟩ : ∃ root : Digest, toArray 32 ((manifestHeader sizeBytes blockBytes blockCount ++
                back).drop (56 + 32 * blockCount.toNat)) "block manifest root width differs" = .ok root :=
              ⟨⟨_, by rw [List.length_drop]; omega⟩, toArray_eq_ok.mpr rfl⟩
            simp only [ensure_true, ok_bind, hread, hrange, some_orFail, hroot] at h
            cases htree : fileMerkleRootFromBlockDigests prims sizeBytes.toNat blockBytes.toNat leaves with
            | error reason =>
                rw [htree, error_bind, Except.error.injEq] at h
                rcases fileMerkleRootFromBlockDigests_error htree with hreason | hreason
                · exact ⟨_, by decide, h.symm.trans hreason⟩
                · exact ⟨_, by decide, h.symm.trans hreason⟩
            | ok found =>
                rw [htree, ok_bind, ensure] at h
                split_ifs at h
                exact ⟨"block manifest root differs", by decide, (Except.error.inj h).symm⟩
          · simp only [ensure_true, ok_bind, hread, error_bind, Except.error.injEq] at h
            exact ⟨_, by decide, h.symm⟩
    · right
      simp only [checkedMul, if_neg hmul, Option.orFail, error_bind, Except.error.injEq] at h
      refine ⟨h.symm, blockCount, ?_, by omega⟩
      have hfront : (blockManifestDomain ++ (bigEndian 8 sizeBytes.toNat ++ bigEndian 8 blockBytes.toNat)).length =
          48 := by simp [blockManifestDomain_length]
      have hsplit : manifestHeader sizeBytes blockBytes blockCount ++ back =
          (blockManifestDomain ++ (bigEndian 8 sizeBytes.toNat ++ bigEndian 8 blockBytes.toNat)) ++
            (bigEndian 8 blockCount.toNat ++ back) := by simp only [manifestHeader, List.append_assoc]
      rw [hsplit, ← hfront]
      exact (readU64_eq_ok (by rw [hfront]; decide)).mpr ⟨by rw [hfront], _, rfl⟩
  · left
    refine ⟨"block manifest domain or length differs", by decide, ?_⟩
    have hguard : (decide (88 ≤ encoded.length) && blockManifestDomain.isPrefixOf encoded) = false := by
      rw [← Bool.not_eq_true, Bool.and_eq_true, decide_eq_true_eq]
      exact hframe
    rw [validateBlockManifest, hfixed, some_orFail, ok_bind, hguard] at h
    exact (Except.error.inj h).symm

/-- The decoder accepts exactly what the encoder writes for nonzero digests with the expected count and root.  Hence
each list of digests has one accepted encoding and nothing may follow it, and whatever is rejected is rejected for its
contents: the only length that can overflow is the declared one, which is then refused. -/
theorem validateBlockManifest_exact (prims : Primitives) (encoded : List UInt8) (expected : BlockManifestExpectation) :
    (validateBlockManifest prims encoded expected = .ok () ↔
      ∃ leaves : List Digest, (∀ leaf ∈ leaves, leaf ≠ .zero 32) ∧ leaves.length = expected.blockCount.toNat ∧
        encodeBlockManifest prims expected.sizeBytes expected.blockBytes leaves = .ok encoded ∧
        fileMerkleRootFromBlockDigests prims expected.sizeBytes.toNat expected.blockBytes.toNat leaves =
          .ok expected.fileRoot) ∧
    (∀ leaves : List Digest, (∀ leaf ∈ leaves, leaf ≠ .zero 32) → leaves.length = expected.blockCount.toNat →
      fileMerkleRootFromBlockDigests prims expected.sizeBytes.toNat expected.blockBytes.toNat leaves =
        .ok expected.fileRoot →
      ∃! bytes, encodeBlockManifest prims expected.sizeBytes expected.blockBytes leaves = .ok bytes ∧
        validateBlockManifest prims bytes expected = .ok ()) ∧
    (∀ suffix, validateBlockManifest prims encoded expected = .ok () →
      validateBlockManifest prims (encoded ++ suffix) expected = .ok () → suffix = []) ∧
    ∀ error, validateBlockManifest prims encoded expected = .error error →
      (∃ message ∈ manifestRejections, error = .invalidInput message) ∨
        (error = .invalidInput "block manifest digest length overflows" ∧
          ∃ declared, readU64 encoded 48 = .ok (declared, 56) ∧ 2 ^ 64 ≤ declared.toNat * 32) := by
  have hcounted : ∀ leaves : List Digest, leaves.length = expected.blockCount.toNat →
      UInt64.ofNat leaves.length = expected.blockCount := fun leaves hcount => by
    rw [hcount, UInt64.ofNat_toNat]
  refine ⟨?_, ?_, ?_, fun error h => validateBlockManifest_rejects h⟩
  · rw [validateBlockManifest_eq_ok]
    refine exists_congr fun leaves => and_congr_right fun hnonzero => and_congr_right fun hcount => ?_
    rw [encodeBlockManifest_eq_ok, hcounted leaves hcount]
    constructor
    · rintro ⟨hroot, hbytes⟩
      exact ⟨⟨hnonzero, expected.fileRoot, hroot, hbytes⟩, hroot⟩
    · rintro ⟨⟨_, root, hroot, hbytes⟩, hexpected⟩
      rw [hroot, Except.ok.injEq] at hexpected
      exact ⟨hexpected ▸ hroot, hexpected ▸ hbytes⟩
  · intro leaves hnonzero hcount hroot
    have hencode := encodeBlockManifest_eq_ok.mpr ⟨hnonzero, expected.fileRoot, hroot, rfl⟩
    refine ⟨_, ⟨hencode, ?_⟩, fun other hother => ?_⟩
    · rw [hcounted leaves hcount]
      exact validateBlockManifest_eq_ok.mpr ⟨leaves, hnonzero, hcount, hroot, rfl⟩
    · have hsame := hother.1
      rw [hencode, Except.ok.injEq] at hsame
      exact hsame.symm
  · intro suffix h h'
    obtain ⟨leaves, _, hcount, _, rfl⟩ := validateBlockManifest_eq_ok.mp h
    obtain ⟨leaves', _, hcount', _, hlonger⟩ := validateBlockManifest_eq_ok.mp h'
    have hlengths := congrArg List.length hlonger
    simp only [manifestBytes, List.length_append, digestBytes_length, hcount, hcount'] at hlengths
    exact List.length_eq_zero_iff.mp (by omega)

end Skydriver
