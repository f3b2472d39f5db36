import Skydriver.Vfs.Cryptofile
import Skydriver.Vfs.MerkleAgreement

/-!
# Both sides write and read the same encrypted objects

The layout of an encoded object fixes every frame by its ordinal.  Under a valid descriptor the wrapping integers of the
data-plane side never wrap, so that its loops follow the same layout as those of the portable core.
-/

namespace Skydriver.Cryptofile

open Checked Fault FileMerkle

/-! ### Descriptors -/

/-- The descriptor of the portable core, which takes the length of the plaintext separately. -/
def coreDescriptor (descriptor : Descriptor) : EncryptionDescriptor where
  directoryId := descriptor.directoryId
  versionId := descriptor.versionId
  keyEpoch := descriptor.keyEpoch
  frameBytes := descriptor.frameBytes

/-- What `Validate` demands, in natural numbers. -/
structure Valid (descriptor : Descriptor) : Prop where
  suite : descriptor.suite = Cryptofile.suite
  directoryId : descriptor.directoryId ≠ .zero 16
  versionId : descriptor.versionId ≠ .zero 16
  keyEpoch : descriptor.keyEpoch ≠ 0
  frameBytes : 0 < descriptor.frameBytes.toNat
  plaintextLimit : descriptor.plaintextBytes.toNat < 2 ^ 63
  frameLimit : descriptor.frameBytes.toNat < 2 ^ 63
  frameCount : FileMerkle.expectedBlockCount descriptor.plaintextBytes.toNat descriptor.frameBytes.toNat < 2 ^ 32

theorem frameCount_toNat {descriptor : Descriptor} (hframe : 0 < descriptor.frameBytes.toNat) :
    descriptor.frameCount.toNat =
      FileMerkle.expectedBlockCount descriptor.plaintextBytes.toNat descriptor.frameBytes.toNat := by
  have hfilled : descriptor.frameBytes ≠ 0 := by
    intro hzero
    rw [hzero] at hframe
    simp at hframe
  rw [← Merkle.expectedBlockCount_toNat, Descriptor.frameCount, Merkle.expectedBlockCount]
  simp only [hfilled, or_false]

theorem validate_eq_ok {descriptor : Descriptor} : descriptor.validate = .ok () ↔ Valid descriptor := by
  have hint : maxInt.toNat = 2 ^ 63 - 1 := by decide
  have hcount : maxUint32.toNat = 2 ^ 32 - 1 := by decide
  have hpositive : descriptor.frameBytes ≠ 0 ↔ 0 < descriptor.frameBytes.toNat := by
    rw [Nat.pos_iff_ne_zero]
    exact not_congr UInt64.toNat_inj.symm
  simp only [Descriptor.validate, ensure_bind_eq_ok, ensure_eq_ok, beq_iff_eq, Bool.not_eq_true', Bool.or_eq_false_iff,
    Merkle.isZero_eq_false, beq_eq_false_iff_ne, decide_eq_false_iff_not, gt_iff_lt, UInt64.lt_iff_toNat_lt, hint, hcount,
    hpositive]
  constructor
  · rintro ⟨hsuite, ⟨hdirectory, hversion⟩, ⟨hepoch, hframe⟩, ⟨hplaintext, hlimit⟩, hframes⟩
    rw [frameCount_toNat hframe] at hframes
    exact ⟨hsuite, hdirectory, hversion, hepoch, hframe, by omega, by omega, by omega⟩
  · intro h
    have hframes := h.frameCount
    have hplaintext := h.plaintextLimit
    have hlimit := h.frameLimit
    rw [frameCount_toNat h.frameBytes]
    exact ⟨h.suite, ⟨h.directoryId, h.versionId⟩, ⟨h.keyEpoch, h.frameBytes⟩, ⟨by omega, by omega⟩, by omega⟩

namespace Valid

variable {descriptor : Descriptor}

theorem core (h : Valid descriptor) : validateDescriptor (coreDescriptor descriptor) = .ok () := by
  refine validateDescriptor_eq_ok.mpr ⟨h.keyEpoch, fun hzero => ?_⟩
  have hframe : 0 < (coreDescriptor descriptor).frameBytes.toNat := h.frameBytes
  rw [hzero] at hframe
  simp at hframe

theorem encodedLength_lt (h : Valid descriptor) :
    encodedLength descriptor.plaintextBytes.toNat descriptor.frameBytes.toNat < 2 ^ 64 := by
  have hframes := h.frameCount
  have hplaintext := h.plaintextLimit
  rw [encodedLength]
  omega

theorem encodedBytes_eq (h : Valid descriptor) :
    descriptor.encodedBytes =
      .ok (UInt64.ofNat (encodedLength descriptor.plaintextBytes.toNat descriptor.frameBytes.toNat)) := by
  have hframes := h.frameCount
  have hplaintext := h.plaintextLimit
  have hlength := h.encodedLength_lt
  have hcount := frameCount_toNat h.frameBytes
  have htag : frameTagBytes.toNat = 16 := rfl
  have hmaximum : maxUint64.toNat = 2 ^ 64 - 1 := by decide
  have hroom : (!decide (descriptor.frameCount > (maxUint64 - descriptor.plaintextBytes) / frameTagBytes)) = true := by
    rw [Bool.not_eq_true', decide_eq_false_iff_not, gt_iff_lt, UInt64.lt_iff_toNat_lt, UInt64.toNat_div,
      UInt64.toNat_sub_of_le _ _ (by rw [UInt64.le_iff_toNat_le]; omega), hcount, htag, hmaximum]
    omega
  rw [Descriptor.encodedBytes, validate_eq_ok.mpr h, ok_bind]
  dsimp only
  rw [hroom, ensure_true, ok_bind, Except.ok.injEq]
  apply UInt64.toNat_inj.mp
  rw [encodedLength] at hlength ⊢
  rw [toNat_ofNat_u64 hlength, UInt64.toNat_add, UInt64.toNat_mul, hcount, htag, Nat.mod_eq_of_lt (by omega),
    Nat.mod_eq_of_lt (by omega)]

end Valid

/-! ### Keys -/

theorem foldl_or_eq_zero (value : List UInt8) (combined : UInt8) :
    value.foldl (fun combined element => combined ||| element) combined = 0 ↔
      combined = 0 ∧ ∀ element ∈ value, element = 0 := by
  induction value generalizing combined with
  | nil => simp
  | cons element value ih =>
      rw [List.foldl_cons, ih, UInt8.or_eq_zero_iff, List.forall_mem_cons, and_assoc]

theorem allZero_eq_false {width : Nat} {key : Bytes width} (h : key ≠ .zero width) : allZero key.val = false := by
  rw [allZero, beq_eq_false_iff_ne, ne_eq, foldl_or_eq_zero]
  rintro ⟨_, hall⟩
  apply h
  apply Bytes.ext
  rw [List.eq_replicate_of_mem hall, key.length_val]
  rfl

theorem new_eq_ok {prims : FramePrimitives} {directoryKey : Bytes 32} (hkey : directoryKey ≠ .zero 32)
    {descriptor : Descriptor} {fileCipher : Cipher} :
    new prims directoryKey descriptor = .ok fileCipher ↔
      Valid descriptor ∧ ∃ fileKey,
        Skydriver.deriveFileKey prims (coreDescriptor descriptor) directoryKey = some fileKey ∧
        fileCipher = ⟨descriptor, fileKey, descriptor.frameCount, descriptor.aadPrefix⟩ := by
  have hderive : deriveFileKey prims directoryKey descriptor =
      (Skydriver.deriveFileKey prims (coreDescriptor descriptor) directoryKey).orFail
        (.derive "derive Skydriver VFS file key") := by
    rw [deriveFileKey, allZero_eq_false hkey]
    rfl
  rw [new, bind_eq_ok, hderive]
  simp only [bind_eq_ok, orFail_eq_ok, Except.ok.injEq]
  constructor
  · rintro ⟨_, hvalid, fileKey, hfileKey, rfl⟩
    exact ⟨validate_eq_ok.mp hvalid, fileKey, hfileKey, rfl⟩
  · rintro ⟨hvalid, fileKey, hfileKey, rfl⟩
    exact ⟨(), validate_eq_ok.mpr hvalid, fileKey, hfileKey, rfl⟩

/-! ### Frames -/

section Frames

variable {prims : FramePrimitives} {descriptor : Descriptor} {fileKey : Bytes 32}

def cipherOf (descriptor : Descriptor) (fileKey : Bytes 32) : Cipher :=
  ⟨descriptor, fileKey, descriptor.frameCount, descriptor.aadPrefix⟩

theorem offset_toNat {ordinal : Nat} (hframe : 0 < descriptor.frameBytes.toNat)
    (hinside : ordinal * descriptor.frameBytes.toNat < descriptor.plaintextBytes.toNat) :
    (UInt64.ofNat ordinal * descriptor.frameBytes).toNat = ordinal * descriptor.frameBytes.toNat := by
  have htotal := descriptor.plaintextBytes.toNat_lt
  have hordinal := Nat.le_mul_of_pos_right ordinal hframe
  rw [UInt64.toNat_mul, toNat_ofNat_u64 (by omega), Nat.mod_eq_of_lt (by omega)]

theorem plaintextFrameBytes_toNat (fileKey : Bytes 32) {ordinal : Nat} (hframe : 0 < descriptor.frameBytes.toNat)
    (hinside : ordinal * descriptor.frameBytes.toNat < descriptor.plaintextBytes.toNat) :
    ((cipherOf descriptor fileKey).plaintextFrameBytes (UInt64.ofNat ordinal)).toNat =
      frameLengthAt (coreDescriptor descriptor) descriptor.plaintextBytes ordinal := by
  have hoffset := offset_toNat hframe hinside
  have hle : UInt64.ofNat ordinal * descriptor.frameBytes ≤ descriptor.plaintextBytes := by
    rw [UInt64.le_iff_toNat_le, hoffset]
    exact hinside.le
  simp only [Cipher.plaintextFrameBytes, cipherOf]
  rw [Words.toNat_min, UInt64.toNat_sub_of_le _ _ hle, hoffset, frameLengthAt, coreDescriptor]

theorem frameAAD_eq (ordinal : Nat) (plaintextBytes : UInt64) :
    (cipherOf descriptor fileKey).frameAAD (UInt64.ofNat ordinal) plaintextBytes =
      frameAad (coreDescriptor descriptor) (UInt64.ofNat ordinal) plaintextBytes descriptor.plaintextBytes := by
  simp only [Cipher.frameAAD, cipherOf, Descriptor.aadPrefix, frameAad, coreDescriptor, List.append_assoc]
  rfl

/-- Sealing one frame is the encryption of the layout, tag behind ciphertext. -/
theorem aeadSeal_eq {ordinal : Nat} {plaintext : List UInt8} {plaintextBytes : UInt64}
    (hlength : plaintextBytes.toNat = plaintext.length) :
    aeadSeal prims fileKey (frameNonce (UInt64.ofNat ordinal)) plaintext
        ((cipherOf descriptor fileKey).frameAAD (UInt64.ofNat ordinal) plaintextBytes) =
      ((encryptFrame prims (coreDescriptor descriptor) fileKey descriptor.plaintextBytes ordinal plaintext).map
        fun sealed => sealed.1 ++ sealed.2.val).orFail .panicked := by
  have hbytes : plaintextBytes = UInt64.ofNat plaintext.length := by
    rw [← hlength, UInt64.ofNat_toNat]
  have hnonce : frameNonce (UInt64.ofNat ordinal) = nonce (UInt64.ofNat ordinal) := rfl
  rw [aeadSeal, frameAAD_eq, hbytes, hnonce, encryptFrame]
  rcases prims.encrypt fileKey (nonce (UInt64.ofNat ordinal)) (frameAad (coreDescriptor descriptor)
    (UInt64.ofNat ordinal) (UInt64.ofNat plaintext.length) descriptor.plaintextBytes) plaintext with _ | ⟨ciphertext, tag⟩
  · rfl
  · rfl

theorem aeadOpen_eq {ordinal : Nat} {ciphertext : List UInt8} {tag : Bytes 16} {plaintextBytes : UInt64}
    (hlength : plaintextBytes.toNat = ciphertext.length) :
    aeadOpen prims fileKey (frameNonce (UInt64.ofNat ordinal)) (ciphertext ++ tag.val)
        ((cipherOf descriptor fileKey).frameAAD (UInt64.ofNat ordinal) plaintextBytes) =
      decryptFrame prims (coreDescriptor descriptor) fileKey descriptor.plaintextBytes ordinal ciphertext tag := by
  have hbytes : plaintextBytes = UInt64.ofNat ciphertext.length := by
    rw [← hlength, UInt64.ofNat_toNat]
  have hnonce : frameNonce (UInt64.ofNat ordinal) = nonce (UInt64.ofNat ordinal) := rfl
  have hsplit : (ciphertext ++ tag.val).length - 16 = ciphertext.length := by
    rw [List.length_append, tag.length_val, Nat.add_sub_cancel]
  rw [aeadOpen, hsplit, List.drop_left, List.take_left, tryInto_eq_some.mpr rfl, frameAAD_eq, hbytes, hnonce,
    decryptFrame]
  simp only [Option.bind_eq_bind, Option.bind_some]
  rcases prims.decrypt fileKey (nonce (UInt64.ofNat ordinal)) (frameAad (coreDescriptor descriptor)
    (UInt64.ofNat ordinal) (UInt64.ofNat ciphertext.length) descriptor.plaintextBytes) ciphertext tag with _ | plaintext
  · rfl
  · rfl

end Frames

/-! ### Both loops follow the layout -/

section Loops

variable {descriptor : Descriptor} (hvalid : Valid descriptor)

theorem ofNat_succ (ordinal : Nat) : UInt64.ofNat ordinal + 1 = UInt64.ofNat (ordinal + 1) := (UInt64.ofNat_add _ _).symm

theorem sliceBuffer_frame (fileCipher : Cipher) (ordinal : UInt64) :
    sliceBuffer fileCipher.descriptor.frameBytes (fileCipher.plaintextFrameBytes ordinal) = .ok () := by
  rw [sliceBuffer, ensure_eq_ok, decide_eq_true_eq, UInt64.le_iff_toNat_le, Cipher.plaintextFrameBytes,
    Words.toNat_min]
  exact Nat.min_le_left _ _

include hvalid in
/-- Sealing a source that holds the rest of the plaintext writes the rest of the layout. -/
theorem sealLoop_eq (prims : FramePrimitives) (fileKey : Bytes 32) {ordinal left : Nat} (source : Reader)
    (hleft : left = framesBehind (coreDescriptor descriptor) descriptor.plaintextBytes ordinal)
    (hsource : source.data.length = descriptor.plaintextBytes.toNat - ordinal * descriptor.frameBytes.toNat)
    (destination : List UInt8) (plaintextTotal : UInt64) :
    (∀ encoded, encodedFrames prims (coreDescriptor descriptor) fileKey descriptor.plaintextBytes ordinal
        (chunks descriptor.frameBytes.toNat source.data) = some encoded →
      ∃ rest, sealLoop prims (cipherOf descriptor fileKey) left (UInt64.ofNat ordinal) source destination plaintextTotal =
        .ok (rest, destination ++ encoded, plaintextTotal + UInt64.ofNat source.data.length) ∧ rest.data = []) ∧
    (encodedFrames prims (coreDescriptor descriptor) fileKey descriptor.plaintextBytes ordinal
        (chunks descriptor.frameBytes.toNat source.data) = none →
      ∃ fault, sealLoop prims (cipherOf descriptor fileKey) left (UInt64.ofNat ordinal) source destination
        plaintextTotal = .error fault) := by
  have hpos := hvalid.frameBytes
  induction left generalizing ordinal source destination plaintextTotal with
  | zero =>
      have hempty : source.data = [] := by
        rw [← List.length_eq_zero_iff, hsource]
        exact framesBehind_eq_zero hvalid.core hleft
      rw [hempty, chunks_nil, encodedFrames]
      refine ⟨fun encoded hencoded => ⟨source, ?_, hempty⟩, fun hnone => by cases hnone⟩
      rw [← Option.some.inj hencoded]
      simp [sealLoop]
  | succ left ih =>
      obtain ⟨hinside, hnext⟩ := framesBehind_eq_succ hvalid.core hleft
      change ordinal * descriptor.frameBytes.toNat < descriptor.plaintextBytes.toNat at hinside
      have hmore : source.data ≠ [] := by
        rw [← List.length_pos_iff, hsource]
        omega
      have hroom := plaintextFrameBytes_toNat fileKey hpos hinside
      have hframe : frameLengthAt (coreDescriptor descriptor) descriptor.plaintextBytes ordinal =
          min descriptor.frameBytes.toNat source.data.length := by
        rw [frameLengthAt, hsource]
        rfl
      obtain ⟨rest, hread, hrest⟩ := Reader.readExact_of_le
        (show min descriptor.frameBytes.toNat source.data.length ≤ source.data.length from Nat.min_le_right _ _)
      rw [← List.take_eq_take_min, ← hframe, ← hroom] at hread
      rw [← List.drop_eq_drop_min] at hrest
      have hlength : ((cipherOf descriptor fileKey).plaintextFrameBytes (UInt64.ofNat ordinal)).toNat =
          (source.data.take descriptor.frameBytes.toNat).length := by
        rw [hroom, hframe, List.length_take]
      have hbehind : rest.data.length =
          descriptor.plaintextBytes.toNat - (ordinal + 1) * descriptor.frameBytes.toNat := by
        rw [hrest, List.length_drop, hsource]
        exact (remaining_succ (coreDescriptor descriptor) descriptor.plaintextBytes ordinal).symm
      rw [chunks_cons hpos hmore, encodedFrames, sealLoop]
      dsimp only
      rw [sliceBuffer_frame, ok_bind, hread, some_orFail, reporting_ok, ok_bind]
      dsimp only
      rw [show (cipherOf descriptor fileKey).aead = fileKey from rfl, aeadSeal_eq hlength]
      rcases hencrypt : encryptFrame prims (coreDescriptor descriptor) fileKey descriptor.plaintextBytes ordinal
        (source.data.take descriptor.frameBytes.toNat) with _ | ⟨ciphertext, tag⟩
      · refine ⟨?_, fun _ => ⟨_, rfl⟩⟩
        intro encoded hsome
        cases hsome
      · obtain ⟨hsome, hnone⟩ := ih rest hnext hbehind (destination ++ (ciphertext ++ tag.val))
          (plaintextTotal + (cipherOf descriptor fileKey).plaintextFrameBytes (UInt64.ofNat ordinal))
        rw [hrest] at hsome hnone
        simp only [Option.map_some, some_orFail, ok_bind, ofNat_succ, Option.bind_eq_bind, Option.bind_some,
          Option.bind_eq_some_iff, Option.bind_eq_none_iff, Option.some.injEq]
        constructor
        · rintro encoded ⟨behind, hencoded, rfl⟩
          obtain ⟨last, hloop, hlast⟩ := hsome behind hencoded
          refine ⟨last, ?_, hlast⟩
          have hbytes : (cipherOf descriptor fileKey).plaintextFrameBytes (UInt64.ofNat ordinal) =
              UInt64.ofNat (source.data.take descriptor.frameBytes.toNat).length := by
            rw [← hlength, UInt64.ofNat_toNat]
          have htotal : (cipherOf descriptor fileKey).plaintextFrameBytes (UInt64.ofNat ordinal) +
              UInt64.ofNat (source.data.drop descriptor.frameBytes.toNat).length = UInt64.ofNat source.data.length := by
            rw [hbytes, ← UInt64.ofNat_add, ← List.length_append, List.take_append_drop]
          rw [hloop, UInt64.add_assoc, htotal, List.append_assoc, List.append_assoc]
        · intro hbroken
          apply hnone
          rw [Option.eq_none_iff_forall_ne_some]
          intro behind hencoded
          exact absurd (hbroken behind hencoded) (by simp)

include hvalid in
/-- Opening a source accepts what the layout accepts and leaves what stands behind it. -/
theorem openLoop_eq (prims : FramePrimitives) (fileKey : Bytes 32) {frameCapacity : UInt64}
    (hcapacity : frameCapacity.toNat = descriptor.frameBytes.toNat + 16) {ordinal left : Nat} (source : Reader)
    (hleft : left = framesBehind (coreDescriptor descriptor) descriptor.plaintextBytes ordinal)
    (hashed destination : List UInt8) (plaintextTotal : UInt64) :
    (∀ plaintext behind, openedFrames prims (coreDescriptor descriptor) fileKey descriptor.plaintextBytes left ordinal
        source.data = some (plaintext, behind) →
      ∃ rest consumed, openLoop prims (cipherOf descriptor fileKey) frameCapacity left (UInt64.ofNat ordinal) source
          hashed destination plaintextTotal =
        .ok (rest, hashed ++ consumed, destination ++ plaintext, plaintextTotal + UInt64.ofNat plaintext.length) ∧
        source.data = consumed ++ behind ∧ rest.data = behind) ∧
    (openedFrames prims (coreDescriptor descriptor) fileKey descriptor.plaintextBytes left ordinal source.data = none →
      ∃ fault, openLoop prims (cipherOf descriptor fileKey) frameCapacity left (UInt64.ofNat ordinal) source hashed
        destination plaintextTotal = .error fault) := by
  have hpos := hvalid.frameBytes
  induction left generalizing ordinal source hashed destination plaintextTotal with
  | zero =>
      rw [openedFrames]
      refine ⟨fun plaintext behind hopened => ⟨source, [], ?_, ?_⟩, fun hnone => by cases hnone⟩
      · rw [← (Prod.mk.inj (Option.some.inj hopened)).1]
        simp [openLoop]
      · exact ⟨(Prod.mk.inj (Option.some.inj hopened)).2, (Prod.mk.inj (Option.some.inj hopened)).2⟩
  | succ left ih =>
      obtain ⟨hinside, hnext⟩ := framesBehind_eq_succ hvalid.core hleft
      change ordinal * descriptor.frameBytes.toNat < descriptor.plaintextBytes.toNat at hinside
      obtain ⟨length, hlength⟩ : ∃ length,
          length = frameLengthAt (coreDescriptor descriptor) descriptor.plaintextBytes ordinal := ⟨_, rfl⟩
      have hbytes := plaintextFrameBytes_toNat fileKey hpos hinside
      rw [← hlength] at hbytes
      have hle : length ≤ descriptor.frameBytes.toNat := by
        rw [hlength]
        exact Nat.min_le_left _ _
      have hlimit := hvalid.frameLimit
      have hencoded : ((cipherOf descriptor fileKey).plaintextFrameBytes (UInt64.ofNat ordinal) + frameTagBytes).toNat =
          length + 16 := by
        rw [UInt64.toNat_add, hbytes, show frameTagBytes.toNat = 16 from rfl, Nat.mod_eq_of_lt (by omega)]
      have hslice : sliceBuffer frameCapacity
          ((cipherOf descriptor fileKey).plaintextFrameBytes (UInt64.ofNat ordinal) + frameTagBytes) = .ok () := by
        rw [sliceBuffer, ensure_eq_ok, decide_eq_true_eq, UInt64.le_iff_toNat_le, hencoded, hcapacity]
        omega
      rw [openedFrames, openLoop]
      dsimp only
      rw [hslice, ok_bind, hencoded, ← hlength]
      by_cases henough : length + 16 ≤ source.data.length
      · obtain ⟨rest, hread, hrest⟩ := Reader.readExact_of_le henough
        obtain ⟨tag, htag⟩ : ∃ tag : Bytes 16, (source.data.drop length).take 16 = tag.val := by
          refine ⟨⟨_, ?_⟩, rfl⟩
          rw [List.length_take, List.length_drop]
          omega
        have hsplit : source.data.take (length + 16) = source.data.take length ++ tag.val := by
          rw [List.take_add, htag]
        have hfront : ((cipherOf descriptor fileKey).plaintextFrameBytes (UInt64.ofNat ordinal)).toNat =
            (source.data.take length).length := by
          rw [hbytes, List.length_take]
          omega
        have hcount : (cipherOf descriptor fileKey).plaintextFrameBytes (UInt64.ofNat ordinal) =
            UInt64.ofNat (source.data.take length).length := by
          rw [← hfront, UInt64.ofNat_toNat]
        rw [hread, some_orFail, reporting_ok, ok_bind]
        dsimp only
        rw [hsplit, show (cipherOf descriptor fileKey).aead = fileKey from rfl, aeadOpen_eq hfront,
          tryInto_eq_some.mpr htag]
        simp only [Option.bind_eq_bind, Option.bind_some]
        rcases hdecrypt : decryptFrame prims (coreDescriptor descriptor) fileKey descriptor.plaintextBytes ordinal
          (source.data.take length) tag with _ | plaintext
        · refine ⟨?_, fun _ => ⟨_, rfl⟩⟩
          intro plaintext behind hsome
          cases hsome
        · obtain ⟨hsome, hnone⟩ := ih rest hnext (hashed ++ (source.data.take length ++ tag.val))
            (destination ++ plaintext)
            (plaintextTotal + (cipherOf descriptor fileKey).plaintextFrameBytes (UInt64.ofNat ordinal))
          rw [hrest] at hsome hnone
          simp only [some_orFail, reporting_ok, ok_bind, ofNat_succ, Option.bind_some, Option.bind_eq_some_iff,
            Option.bind_eq_none_iff, Option.some.injEq]
          constructor
          · rintro _ behind ⟨⟨more, last⟩, hopened, hresult⟩
            obtain ⟨rfl, rfl⟩ := Prod.mk.inj hresult
            obtain ⟨final, consumed, hloop, hdata, hfinal⟩ := hsome more last hopened
            refine ⟨final, source.data.take length ++ tag.val ++ consumed, ?_, ?_, hfinal⟩
            · have hsum : (cipherOf descriptor fileKey).plaintextFrameBytes (UInt64.ofNat ordinal) +
                  UInt64.ofNat more.length = UInt64.ofNat (plaintext ++ more).length := by
                rw [hcount, ← decryptFrame_length hdecrypt, ← UInt64.ofNat_add, List.length_append]
              rw [hloop, UInt64.add_assoc, hsum, List.append_assoc, List.append_assoc, List.append_assoc]
            · rw [List.append_assoc, ← hdata, ← hsplit, List.take_append_drop]
          · intro hbroken
            apply hnone
            rw [Option.eq_none_iff_forall_ne_some]
            intro opened hopened
            exact absurd (hbroken opened hopened) (by simp)
      · rw [Reader.readExact_of_lt (by omega)]
        refine ⟨?_, fun _ => ⟨_, rfl⟩⟩
        have hshort : tryInto 16 ((source.data.drop length).take 16) = none := by
          rw [Option.eq_none_iff_forall_ne_some]
          intro tag htag
          have hwidth := congrArg List.length (tryInto_eq_some.mp htag)
          rw [Bytes.length_val, List.length_take, List.length_drop] at hwidth
          omega
        rw [hshort]
        intro plaintext behind hopened
        cases hopened

end Loops

/-! ### Complete objects -/

section Objects

variable {prims : FramePrimitives} {sha256 : List UInt8 → Digest} {descriptor : Descriptor} {directoryKey : Bytes 32}

theorem safeFrameCapacity_eq {frameBytes : UInt64} (hframe : frameBytes.toNat + 16 ≤ maximumAllocation) :
    ∃ capacity, safeFrameCapacity frameBytes frameTagBytes = .ok capacity ∧ capacity.toNat = frameBytes.toNat + 16 := by
  have hint : maxInt.toNat = 2 ^ 63 - 1 := by decide
  have htag : frameTagBytes.toNat = 16 := rfl
  rw [maximumAllocation] at hframe
  have hroom : (!(decide (frameBytes > maxInt) || decide (frameTagBytes > maxInt - frameBytes))) = true := by
    rw [Bool.not_eq_true', Bool.or_eq_false_iff, decide_eq_false_iff_not, decide_eq_false_iff_not, gt_iff_lt, gt_iff_lt,
      UInt64.lt_iff_toNat_lt, UInt64.lt_iff_toNat_lt, UInt64.toNat_sub_of_le _ _ (by rw [UInt64.le_iff_toNat_le]; omega),
      hint, htag]
    omega
  refine ⟨frameBytes + frameTagBytes, by rw [safeFrameCapacity, hroom, ensure_true, ok_bind], ?_⟩
  rw [UInt64.toNat_add, htag, Nat.mod_eq_of_lt (by omega)]

theorem safeFrameCapacity_unroomy {frameBytes : UInt64} (hframe : maximumAllocation < frameBytes.toNat + 16) :
    safeFrameCapacity frameBytes frameTagBytes =
      .error (.invalidDescriptor "frame allocation exceeds address space") := by
  have hint : maxInt.toNat = 2 ^ 63 - 1 := by decide
  have htag : frameTagBytes.toNat = 16 := rfl
  rw [maximumAllocation] at hframe
  have hroom : (!(decide (frameBytes > maxInt) || decide (frameTagBytes > maxInt - frameBytes))) = false := by
    rw [Bool.not_eq_false', Bool.or_eq_true, decide_eq_true_eq, decide_eq_true_eq, gt_iff_lt, gt_iff_lt,
      UInt64.lt_iff_toNat_lt, UInt64.lt_iff_toNat_lt, hint, htag]
    by_cases hlarge : 2 ^ 63 - 1 < frameBytes.toNat
    · exact .inl hlarge
    · right
      rw [UInt64.toNat_sub_of_le _ _ (by rw [UInt64.le_iff_toNat_le]; omega), hint]
      omega
  rw [safeFrameCapacity, hroom]
  rfl

theorem seal_eq_ok (hkey : directoryKey ≠ .zero 32) (hvalid : Valid descriptor)
    (hframe : descriptor.frameBytes.toNat + 16 ≤ maximumAllocation) {source : Reader}
    (hsource : source.data.length = descriptor.plaintextBytes.toNat) {result : TransformResult} {written : List UInt8} :
    (reporting (new prims directoryKey descriptor) >>= fun fileCipher => fileCipher.seal prims sha256 source) =
        .ok (result, written) ↔
      ∃ fileKey, Skydriver.deriveFileKey prims (coreDescriptor descriptor) directoryKey = some fileKey ∧
        encodedFrames prims (coreDescriptor descriptor) fileKey descriptor.plaintextBytes 0
          (chunks descriptor.frameBytes.toNat source.data) = some written ∧
        result = ⟨descriptor.plaintextBytes,
          UInt64.ofNat (encodedLength descriptor.plaintextBytes.toNat descriptor.frameBytes.toNat), sha256 written⟩ := by
  obtain ⟨capacity, hcapacity, hbytes⟩ := safeFrameCapacity_eq hframe
  have hallocate : (allocate capacity.toNat : Except (Fault CryptofileError) Unit) = .ok () := by
    rw [allocate, ensure_eq_ok, decide_eq_true_eq, hbytes]
    exact hframe
  have hcount : descriptor.frameCount.toNat = framesBehind (coreDescriptor descriptor) descriptor.plaintextBytes 0 := by
    rw [frameCount_toNat hvalid.frameBytes, framesBehind, Nat.zero_mul, Nat.sub_zero, coreDescriptor]
  have hseal : ∀ fileKey, (cipherOf descriptor fileKey).seal prims sha256 source = .ok (result, written) ↔
      encodedFrames prims (coreDescriptor descriptor) fileKey descriptor.plaintextBytes 0
          (chunks descriptor.frameBytes.toNat source.data) = some written ∧
        result = ⟨descriptor.plaintextBytes,
          UInt64.ofNat (encodedLength descriptor.plaintextBytes.toNat descriptor.frameBytes.toNat), sha256 written⟩ := by
    intro fileKey
    have hlength : source.data.length = descriptor.plaintextBytes.toNat - 0 * descriptor.frameBytes.toNat := by
      rw [hsource, Nat.zero_mul, Nat.sub_zero]
    obtain ⟨hsome, hnone⟩ := sealLoop_eq hvalid prims fileKey source hcount hlength [] 0
    have htotal : (0 : UInt64) + UInt64.ofNat source.data.length = descriptor.plaintextBytes := by
      rw [UInt64.zero_add, hsource, UInt64.ofNat_toNat]
    simp only [Cipher.seal, show (cipherOf descriptor fileKey).descriptor = descriptor from rfl,
      show (cipherOf descriptor fileKey).frameCount = descriptor.frameCount from rfl, hvalid.encodedBytes_eq, hcapacity,
      reporting_ok, ok_bind, hallocate]
    rcases hencoded : encodedFrames prims (coreDescriptor descriptor) fileKey descriptor.plaintextBytes 0
      (chunks descriptor.frameBytes.toNat source.data) with _ | encoded
    · obtain ⟨fault, hfault⟩ := hnone hencoded
      change sealLoop prims (cipherOf descriptor fileKey) descriptor.frameCount.toNat 0 source [] 0 = _ at hfault
      simp [hfault]
    · obtain ⟨rest, hrest, hempty⟩ := hsome encoded hencoded
      change sealLoop prims (cipherOf descriptor fileKey) descriptor.frameCount.toNat 0 source [] 0 = _ at hrest
      have hend : requireEOF rest = .ok () := by simp [requireEOF, Reader.read, hempty]
      rw [hrest, ok_bind]
      dsimp only
      rw [hend, ok_bind, List.nil_append, htotal, Except.ok.injEq, Prod.mk.injEq, Option.some.injEq]
      constructor
      · rintro ⟨rfl, rfl⟩
        exact ⟨rfl, rfl⟩
      · rintro ⟨rfl, rfl⟩
        exact ⟨rfl, rfl⟩
  rw [bind_eq_ok]
  simp only [reporting_eq_ok, new_eq_ok hkey]
  constructor
  · rintro ⟨_, ⟨_, fileKey, hfileKey, rfl⟩, h⟩
    exact ⟨fileKey, hfileKey, (hseal fileKey).mp h⟩
  · rintro ⟨fileKey, hfileKey, h⟩
    exact ⟨_, ⟨hvalid, fileKey, hfileKey, rfl⟩, (hseal fileKey).mpr h⟩

theorem open_eq_ok (hkey : directoryKey ≠ .zero 32) (hvalid : Valid descriptor)
    (hframe : descriptor.frameBytes.toNat + 16 ≤ maximumAllocation) {source : Reader} {result : TransformResult}
    {written : List UInt8} :
    (reporting (new prims directoryKey descriptor) >>= fun fileCipher => fileCipher.open prims sha256 source) =
        .ok (result, written) ↔
      ∃ fileKey, Skydriver.deriveFileKey prims (coreDescriptor descriptor) directoryKey = some fileKey ∧
        openedFrames prims (coreDescriptor descriptor) fileKey descriptor.plaintextBytes
          (framesBehind (coreDescriptor descriptor) descriptor.plaintextBytes 0) 0 source.data = some (written, []) ∧
        result = ⟨descriptor.plaintextBytes,
          UInt64.ofNat (encodedLength descriptor.plaintextBytes.toNat descriptor.frameBytes.toNat),
          sha256 source.data⟩ := by
  obtain ⟨capacity, hcapacity, hbytes⟩ := safeFrameCapacity_eq hframe
  have hallocate : (allocate capacity.toNat : Except (Fault CryptofileError) Unit) = .ok () := by
    rw [allocate, ensure_eq_ok, decide_eq_true_eq, hbytes]
    exact hframe
  have hcount : descriptor.frameCount.toNat = framesBehind (coreDescriptor descriptor) descriptor.plaintextBytes 0 := by
    rw [frameCount_toNat hvalid.frameBytes, framesBehind, Nat.zero_mul, Nat.sub_zero, coreDescriptor]
  have hopen : ∀ fileKey, (cipherOf descriptor fileKey).open prims sha256 source = .ok (result, written) ↔
      openedFrames prims (coreDescriptor descriptor) fileKey descriptor.plaintextBytes
          (framesBehind (coreDescriptor descriptor) descriptor.plaintextBytes 0) 0 source.data = some (written, []) ∧
        result = ⟨descriptor.plaintextBytes,
          UInt64.ofNat (encodedLength descriptor.plaintextBytes.toNat descriptor.frameBytes.toNat),
          sha256 source.data⟩ := by
    intro fileKey
    obtain ⟨hsome, hnone⟩ := openLoop_eq hvalid prims fileKey hbytes source hcount [] [] 0
    rw [← hcount]
    simp only [Cipher.open, show (cipherOf descriptor fileKey).descriptor = descriptor from rfl,
      show (cipherOf descriptor fileKey).frameCount = descriptor.frameCount from rfl, hvalid.encodedBytes_eq, hcapacity,
      reporting_ok, ok_bind, hallocate]
    rcases hopened : openedFrames prims (coreDescriptor descriptor) fileKey descriptor.plaintextBytes
      descriptor.frameCount.toNat 0 source.data with _ | ⟨plaintext, behind⟩
    · obtain ⟨fault, hfault⟩ := hnone hopened
      change openLoop prims (cipherOf descriptor fileKey) capacity descriptor.frameCount.toNat 0 source [] [] 0 = _ at hfault
      simp [hfault]
    · obtain ⟨rest, consumed, hrest, hdata, hbehind⟩ := hsome plaintext behind hopened
      change openLoop prims (cipherOf descriptor fileKey) capacity descriptor.frameCount.toNat 0 source [] [] 0 = _ at hrest
      have hlength := (openedFrames_length hvalid.core hcount hopened).1
      have htotal : (0 : UInt64) + UInt64.ofNat plaintext.length = descriptor.plaintextBytes := by
        rw [UInt64.zero_add, hlength, Nat.zero_mul, Nat.sub_zero, UInt64.ofNat_toNat]
      have hend : requireEOF rest = .ok () ↔ behind = [] := by
        simp only [requireEOF, reporting_eq_ok, ensure_eq_ok, beq_iff_eq, List.length_eq_zero_iff]
        rw [Reader.read_fst_eq_nil (by decide), hbehind]
      rw [hrest, ok_bind]
      dsimp only
      rw [bind_eq_ok, List.nil_append, List.nil_append, htotal]
      simp only [hend, Except.ok.injEq, Prod.mk.injEq, Option.some.injEq]
      constructor
      · rintro ⟨_, rfl, rfl, rfl⟩
        rw [hdata, List.append_nil]
        exact ⟨⟨rfl, rfl⟩, rfl⟩
      · rintro ⟨⟨rfl, rfl⟩, rfl⟩
        rw [hdata, List.append_nil]
        exact ⟨(), rfl, rfl, rfl⟩
  rw [bind_eq_ok]
  simp only [reporting_eq_ok, new_eq_ok hkey]
  constructor
  · rintro ⟨_, ⟨_, fileKey, hfileKey, rfl⟩, h⟩
    exact ⟨fileKey, hfileKey, (hopen fileKey).mp h⟩
  · rintro ⟨fileKey, hfileKey, h⟩
    exact ⟨_, ⟨hvalid, fileKey, hfileKey, rfl⟩, (hopen fileKey).mpr h⟩

end Objects

/-! ### Interoperation -/

/-- Every ordinal, offset and length is computed as in the natural numbers, on both sides. -/
structure ComputesExactly (descriptor : Descriptor) : Prop where
  frameCount : descriptor.frameCount.toNat =
    FileMerkle.expectedBlockCount descriptor.plaintextBytes.toNat descriptor.frameBytes.toNat
  encodedBytes : ∃ bytes, descriptor.encodedBytes = .ok bytes ∧
    bytes.toNat = encodedLength descriptor.plaintextBytes.toNat descriptor.frameBytes.toNat
  /-- The offset of a frame inside the plaintext, which is also the checked product of the portable core. -/
  offset : ∀ ordinal < descriptor.frameCount.toNat,
    (UInt64.ofNat ordinal * descriptor.frameBytes).toNat = ordinal * descriptor.frameBytes.toNat ∧
      ordinal * descriptor.frameBytes.toNat < descriptor.plaintextBytes.toNat ∧ ordinal + 1 < 2 ^ 64
  /-- The length of a frame, with and without its tag, is an `int`. -/
  length : ∀ fileKey, ∀ ordinal < descriptor.frameCount.toNat,
    ((cipherOf descriptor fileKey).plaintextFrameBytes (UInt64.ofNat ordinal)).toNat =
      frameLengthAt (coreDescriptor descriptor) descriptor.plaintextBytes ordinal ∧
    ((cipherOf descriptor fileKey).plaintextFrameBytes (UInt64.ofNat ordinal) + frameTagBytes).toNat =
      frameLengthAt (coreDescriptor descriptor) descriptor.plaintextBytes ordinal + 16 ∧
    frameLengthAt (coreDescriptor descriptor) descriptor.plaintextBytes ordinal + 16 < 2 ^ 63
  /-- The running offset of the portable core inside the encoded object stays below its length. -/
  position : ∀ ordinal < descriptor.frameCount.toNat,
    ordinal * (descriptor.frameBytes.toNat + 16) +
        (frameLengthAt (coreDescriptor descriptor) descriptor.plaintextBytes ordinal + 16) ≤
      encodedLength descriptor.plaintextBytes.toNat descriptor.frameBytes.toNat ∧
    encodedLength descriptor.plaintextBytes.toNat descriptor.frameBytes.toNat < 2 ^ 64

theorem Valid.inside {descriptor : Descriptor} (h : Valid descriptor) {ordinal : Nat}
    (hordinal : ordinal < descriptor.frameCount.toNat) :
    ordinal * descriptor.frameBytes.toNat < descriptor.plaintextBytes.toNat := by
  rw [frameCount_toNat h.frameBytes, FileMerkle.expectedBlockCount] at hordinal
  split_ifs at hordinal with hempty
  · omega
  · have hquotient : ordinal ≤ (descriptor.plaintextBytes.toNat - 1) / descriptor.frameBytes.toNat := by omega
    have hproduct := (Nat.le_div_iff_mul_le h.frameBytes).mp hquotient
    omega

theorem Valid.computesExactly {descriptor : Descriptor} (h : Valid descriptor)
    (hframe : descriptor.frameBytes.toNat + 16 ≤ maximumAllocation) : ComputesExactly descriptor where
  frameCount := frameCount_toNat h.frameBytes
  encodedBytes := ⟨_, h.encodedBytes_eq, toNat_ofNat_u64 h.encodedLength_lt⟩
  offset := by
    intro ordinal hordinal
    have hinside := h.inside hordinal
    have hcount := h.frameCount
    rw [← frameCount_toNat h.frameBytes] at hcount
    exact ⟨offset_toNat h.frameBytes hinside, hinside, by omega⟩
  length := by
    intro fileKey ordinal hordinal
    have hlength := plaintextFrameBytes_toNat fileKey h.frameBytes (h.inside hordinal)
    have hle : frameLengthAt (coreDescriptor descriptor) descriptor.plaintextBytes ordinal ≤
        descriptor.frameBytes.toNat := Nat.min_le_left _ _
    rw [maximumAllocation] at hframe
    refine ⟨hlength, ?_, by omega⟩
    rw [UInt64.toNat_add, hlength, show frameTagBytes.toNat = 16 from rfl, Nat.mod_eq_of_lt (by omega)]
  position := by
    intro ordinal hordinal
    have hinside := h.inside hordinal
    have hle : frameLengthAt (coreDescriptor descriptor) descriptor.plaintextBytes ordinal ≤
        descriptor.plaintextBytes.toNat - ordinal * descriptor.frameBytes.toNat := Nat.min_le_right _ _
    rw [frameCount_toNat h.frameBytes] at hordinal
    refine ⟨?_, h.encodedLength_lt⟩
    rw [encodedLength, Nat.mul_add]
    omega

/-- The portable core writes an object that fits one block of memory, as long as the primitives accept the key and every
frame. -/
def PortableSeals (prims : FramePrimitives) (descriptor : Descriptor) (directoryKey : Bytes 32) : Prop :=
  ∀ plaintext : Slice, plaintext.length = descriptor.plaintextBytes.toNat →
    (Skydriver.deriveFileKey prims (coreDescriptor descriptor) directoryKey).isSome →
    (∀ fileKey nonce aad, ∀ frame ∈ chunks descriptor.frameBytes.toNat plaintext.bytes,
      (prims.encrypt fileKey nonce aad frame).isSome) →
    encodedLength plaintext.length descriptor.frameBytes.toNat ≤ maximumAllocation →
    ∃ encoded, sealObject prims plaintext (coreDescriptor descriptor) directoryKey = .ok encoded

theorem Valid.portableSeals {descriptor : Descriptor} (h : Valid descriptor) (prims : FramePrimitives)
    (directoryKey : Bytes 32) : PortableSeals prims descriptor directoryKey := by
  intro plaintext hlength hderive haccepts hfits
  obtain ⟨fileKey, hfileKey⟩ := Option.isSome_iff_exists.mp hderive
  obtain ⟨encoded, hencoded⟩ := Option.isSome_iff_exists.mp
    (encodedFrames_isSome (coreDescriptor descriptor) (UInt64.ofNat plaintext.length) 0 (haccepts fileKey))
  have hbytes := sealed_length h.core hencoded
  exact ⟨⟨encoded, hbytes.trans_le hfits⟩, sealObject_eq_ok.mpr ⟨h.core, fileKey, hfileKey, hencoded⟩⟩

/-- What the data-plane side and the portable core promise each other under one descriptor and directory key. -/
structure Interoperates (prims : FramePrimitives) (sha256 : List UInt8 → Digest) (descriptor : Descriptor)
    (directoryKey : Bytes 32) : Prop where
  /-- Both sides write the same bytes for a plaintext of the declared length, or neither writes an object. -/
  seals : ∀ (plaintext : Slice) (source : Reader) (result : TransformResult) (written : List UInt8),
    source.data = plaintext.bytes → plaintext.length = descriptor.plaintextBytes.toNat →
    written.length ≤ maximumAllocation →
    ((reporting (new prims directoryKey descriptor) >>= fun fileCipher => fileCipher.seal prims sha256 source) =
        .ok (result, written) ↔
      ∃ encoded : Slice, encoded.bytes = written ∧
        sealObject prims plaintext (coreDescriptor descriptor) directoryKey = .ok encoded ∧
        result = ⟨descriptor.plaintextBytes, UInt64.ofNat encoded.length, sha256 encoded.bytes⟩)
  /-- They do write one. -/
  succeeds : PortableSeals prims descriptor directoryKey
  /-- Both sides accept the same encoded bytes and return the same plaintext. -/
  opens : ∀ (encoded : Slice) (source : Reader) (result : TransformResult) (written : List UInt8),
    source.data = encoded.bytes →
    ((reporting (new prims directoryKey descriptor) >>= fun fileCipher => fileCipher.open prims sha256 source) =
        .ok (result, written) ↔
      ∃ plaintext : Slice, plaintext.bytes = written ∧
        openObject prims encoded descriptor.plaintextBytes (coreDescriptor descriptor) directoryKey = .ok plaintext ∧
        result = ⟨descriptor.plaintextBytes, UInt64.ofNat encoded.length, sha256 encoded.bytes⟩)
  /-- The declared encoded length is the length of what either side writes. -/
  length : ∀ plaintext encoded : Slice, plaintext.length = descriptor.plaintextBytes.toNat →
    sealObject prims plaintext (coreDescriptor descriptor) directoryKey = .ok encoded →
    descriptor.encodedBytes = .ok (UInt64.ofNat encoded.length)
  exact : ComputesExactly descriptor

/-- Under a descriptor that leaves a frame no room for its tag the data-plane side has a cipher, which refuses every
source before its first frame, while the portable core goes on to seal. -/
structure Refuses (prims : FramePrimitives) (sha256 : List UInt8 → Digest) (descriptor : Descriptor)
    (directoryKey : Bytes 32) : Prop where
  builds : (Skydriver.deriveFileKey prims (coreDescriptor descriptor) directoryKey).isSome →
    ∃ fileCipher, new prims directoryKey descriptor = .ok fileCipher
  refusesSeal : ∀ fileCipher, new prims directoryKey descriptor = .ok fileCipher → ∀ source,
    fileCipher.seal prims sha256 source =
      .error (.reported (.invalidDescriptor "frame allocation exceeds address space"))
  refusesOpen : ∀ fileCipher, new prims directoryKey descriptor = .ok fileCipher → ∀ source,
    fileCipher.open prims sha256 source =
      .error (.reported (.invalidDescriptor "frame allocation exceeds address space"))
  succeeds : PortableSeals prims descriptor directoryKey

theorem Valid.refuses {descriptor : Descriptor} (h : Valid descriptor) (prims : FramePrimitives)
    (sha256 : List UInt8 → Digest) {directoryKey : Bytes 32} (hkey : directoryKey ≠ .zero 32)
    (hframe : maximumAllocation < descriptor.frameBytes.toNat + 16) :
    Refuses prims sha256 descriptor directoryKey where
  builds := by
    intro hderive
    obtain ⟨fileKey, hfileKey⟩ := Option.isSome_iff_exists.mp hderive
    exact ⟨_, (new_eq_ok hkey).mpr ⟨h, fileKey, hfileKey, rfl⟩⟩
  refusesSeal := by
    intro fileCipher hnew source
    obtain ⟨_, fileKey, _, rfl⟩ := (new_eq_ok hkey).mp hnew
    simp only [Cipher.seal, h.encodedBytes_eq, safeFrameCapacity_unroomy hframe, reporting_ok, reporting_error, ok_bind,
      error_bind]
  refusesOpen := by
    intro fileCipher hnew source
    obtain ⟨_, fileKey, _, rfl⟩ := (new_eq_ok hkey).mp hnew
    simp only [Cipher.open, h.encodedBytes_eq, safeFrameCapacity_unroomy hframe, reporting_ok, reporting_error, ok_bind,
      error_bind]
  succeeds := h.portableSeals prims directoryKey

/-- Both sides interoperate under every valid descriptor whose frames fit the address space with their tags. -/
theorem Valid.interoperates {descriptor : Descriptor} (hvalid : Valid descriptor) (prims : FramePrimitives)
    (sha256 : List UInt8 → Digest) {directoryKey : Bytes 32} (hkey : directoryKey ≠ .zero 32)
    (hframe : descriptor.frameBytes.toNat + 16 ≤ maximumAllocation) :
    Interoperates prims sha256 descriptor directoryKey := by
  have hdeclared : ∀ plaintext : Slice, plaintext.length = descriptor.plaintextBytes.toNat →
      UInt64.ofNat plaintext.length = descriptor.plaintextBytes := fun plaintext hlength => by
    rw [hlength, UInt64.ofNat_toNat]
  have hsealed : ∀ plaintext encoded : Slice, plaintext.length = descriptor.plaintextBytes.toNat →
      sealObject prims plaintext (coreDescriptor descriptor) directoryKey = .ok encoded →
      encoded.length = encodedLength descriptor.plaintextBytes.toNat descriptor.frameBytes.toNat := by
    intro plaintext encoded hlength hseal
    obtain ⟨_, fileKey, _, hencoded⟩ := sealObject_eq_ok.mp hseal
    have hbytes := sealed_length hvalid.core hencoded
    rw [← hlength]
    exact hbytes
  refine ⟨fun plaintext source result written hsource hlength hfits => ?_,
    hvalid.portableSeals prims directoryKey, fun encoded source result written hsource => ?_,
    fun plaintext encoded hlength hseal => ?_, hvalid.computesExactly hframe⟩
  · have hdata : source.data.length = descriptor.plaintextBytes.toNat := by rw [hsource, ← hlength, Slice.length]
    rw [seal_eq_ok hkey hvalid hframe hdata]
    constructor
    · rintro ⟨fileKey, hfileKey, hencoded, rfl⟩
      have hseal : sealObject prims plaintext (coreDescriptor descriptor) directoryKey = .ok ⟨written, hfits⟩ := by
        refine sealObject_eq_ok.mpr ⟨hvalid.core, fileKey, hfileKey, ?_⟩
        rw [hdeclared plaintext hlength, ← hsource]
        exact hencoded
      refine ⟨⟨written, hfits⟩, rfl, hseal, ?_⟩
      rw [hsealed plaintext _ hlength hseal]
    · rintro ⟨encoded, rfl, hseal, rfl⟩
      obtain ⟨_, fileKey, hfileKey, hencoded⟩ := sealObject_eq_ok.mp hseal
      rw [hdeclared plaintext hlength, ← hsource] at hencoded
      exact ⟨fileKey, hfileKey, hencoded, by rw [hsealed plaintext encoded hlength hseal]⟩
  · rw [open_eq_ok hkey hvalid hframe]
    constructor
    · rintro ⟨fileKey, hfileKey, hopened, rfl⟩
      rw [hsource] at hopened ⊢
      obtain ⟨hplaintext, hencoded⟩ := openedFrames_length hvalid.core rfl hopened
      have hbounded := encoded.bounded
      have hbytes : encoded.length = encodedLength descriptor.plaintextBytes.toNat descriptor.frameBytes.toNat := by
        rw [Nat.zero_mul, Nat.sub_zero] at hplaintext
        rw [List.length_nil, Nat.add_zero, hplaintext, framesBehind, Nat.zero_mul, Nat.sub_zero] at hencoded
        exact hencoded
      refine ⟨⟨written, by omega⟩, rfl, openObject_eq_ok.mpr ⟨hvalid.core, fileKey, hfileKey, hopened⟩, ?_⟩
      rw [hbytes]
    · rintro ⟨plaintext, rfl, hopen, rfl⟩
      obtain ⟨_, fileKey, hfileKey, hopened⟩ := openObject_eq_ok.mp hopen
      obtain ⟨hplaintext, hencoded⟩ := openedFrames_length hvalid.core rfl hopened
      have hbytes : encoded.length = encodedLength descriptor.plaintextBytes.toNat descriptor.frameBytes.toNat := by
        rw [Nat.zero_mul, Nat.sub_zero] at hplaintext
        rw [List.length_nil, Nat.add_zero, hplaintext, framesBehind, Nat.zero_mul, Nat.sub_zero] at hencoded
        exact hencoded
      rw [hsource]
      exact ⟨fileKey, hfileKey, hopened, by rw [hbytes]⟩
  · rw [hvalid.encodedBytes_eq, hsealed plaintext encoded hlength hseal]

/-- Every valid descriptor: the two sides are the same codec as far as a frame and its tag fit the address space, and the
data-plane side refuses from there on. -/
theorem cryptofile_interoperates (prims : FramePrimitives) (sha256 : List UInt8 → Digest) (descriptor : Descriptor)
    (directoryKey : Bytes 32) (hkey : directoryKey ≠ .zero 32) (hvalid : descriptor.validate = .ok ()) :
    (descriptor.frameBytes.toNat + 16 ≤ maximumAllocation → Interoperates prims sha256 descriptor directoryKey) ∧
      (maximumAllocation < descriptor.frameBytes.toNat + 16 → Refuses prims sha256 descriptor directoryKey) := by
  have hvalid := validate_eq_ok.mp hvalid
  exact ⟨hvalid.interoperates prims sha256 hkey, hvalid.refuses prims sha256 hkey⟩

open Recorded in
theorem cryptofile_interoperates_payload :
    Interoperates (replay salt directoryKey fileKey payload) polynomialDigest
        ⟨suite, filled 16 1, filled 16 2, 1, 4, 7⟩ directoryKey ∧
      Refuses (replay salt directoryKey fileKey payload) polynomialDigest
        ⟨suite, filled 16 1, filled 16 2, 1, 9223372036854775800, 7⟩ directoryKey :=
  ⟨(cryptofile_interoperates (replay salt directoryKey fileKey payload) polynomialDigest
      ⟨suite, filled 16 1, filled 16 2, 1, 4, 7⟩ directoryKey (by decide) (by decide +kernel)).1 (by decide),
    (cryptofile_interoperates (replay salt directoryKey fileKey payload) polynomialDigest
      ⟨suite, filled 16 1, filled 16 2, 1, 9223372036854775800, 7⟩ directoryKey (by decide) (by decide +kernel)).2
      (by decide)⟩

open Recorded in
/-- A frame size that leaves no room for a tag below the largest `int` is valid, and works for the portable core, but the
data-plane side refuses to allocate its buffer, even for a file without frames. -/
theorem cryptofile_interoperates_unroomy :
    let prims := replay salt directoryKey fileKey []
    let descriptor : Descriptor := ⟨suite, filled 16 1, filled 16 2, 1, 9223372036854775807, 0⟩
    let empty : Slice := ⟨[], by decide⟩
    directoryKey ≠ .zero 32 ∧ descriptor.validate = .ok () ∧
      sealObject prims empty (coreDescriptor descriptor) directoryKey = .ok empty ∧
      openObject prims empty 0 (coreDescriptor descriptor) directoryKey = .ok empty ∧
      (reporting (new prims directoryKey descriptor) >>= fun fileCipher =>
        fileCipher.seal prims polynomialDigest ⟨[], 0, fun _ => 0⟩) =
          .error (.reported (.invalidDescriptor "frame allocation exceeds address space")) ∧
      (reporting (new prims directoryKey descriptor) >>= fun fileCipher =>
        fileCipher.open prims polynomialDigest ⟨[], 0, fun _ => 0⟩) =
          .error (.reported (.invalidDescriptor "frame allocation exceeds address space")) := by
  have hseal : sealObject (replay salt directoryKey fileKey []) ⟨[], by decide⟩
      (coreDescriptor ⟨suite, filled 16 1, filled 16 2, 1, 9223372036854775807, 0⟩) directoryKey =
        .ok ⟨[], by decide⟩ := by
    refine sealObject_eq_ok.mpr ⟨by decide +kernel, fileKey, by decide +kernel, ?_⟩
    rw [chunks_nil]
    rfl
  exact ⟨by decide, by decide +kernel, hseal, by decide +kernel, by decide +kernel, by decide +kernel⟩

end Skydriver.Cryptofile
