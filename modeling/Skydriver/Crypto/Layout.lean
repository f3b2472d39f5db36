import Skydriver.Crypto.Frame

/-!
# The layout of an encoded object

`encodedFrames` and `openedFrames` are the layout itself, by recursion on the frames: no offsets, no accumulators, no
errors.  The loops of `seal` and `open` follow it, its length is known in advance, and opening inverts encoding when
AES-GCM decrypts what it encrypted.
-/

namespace Skydriver

open Checked Fault FileMerkle

/-! ### Canonical frames -/

theorem checkedMul_eq_some {left right product : Nat} :
    checkedMul left right = some product ↔ left * right < 2 ^ 64 ∧ left * right = product := by
  unfold checkedMul
  split_ifs with h
  · simp only [Option.some.injEq, h, true_and]
  · exact ⟨fun hnone => by simp at hnone, fun hsome => absurd hsome.1 h⟩

theorem toNat_ofNat_u64 {value : Nat} (h : value < 2 ^ 64) : (UInt64.ofNat value).toNat = value :=
  UInt64.toNat_ofNat_of_lt' h

theorem validateDescriptor_eq_ok {descriptor : EncryptionDescriptor} :
    validateDescriptor descriptor = .ok () ↔ descriptor.keyEpoch ≠ 0 ∧ descriptor.frameBytes ≠ 0 := by
  simp [validateDescriptor]

theorem frameBytes_pos {descriptor : EncryptionDescriptor} (h : validateDescriptor descriptor = .ok ()) :
    0 < descriptor.frameBytes.toNat := by
  have hframe := (validateDescriptor_eq_ok.mp h).2
  rw [ne_eq, ← UInt64.toNat_inj] at hframe
  exact Nat.pos_of_ne_zero hframe

theorem FrameCipher.new_eq_ok {prims : FramePrimitives} {descriptor : EncryptionDescriptor} {directoryKey : Bytes 32}
    {cipher : FrameCipher} :
    FrameCipher.new prims descriptor directoryKey = .ok cipher ↔
      cipher.descriptor = descriptor ∧ deriveFileKey prims descriptor directoryKey = some cipher.fileKey ∧
        cipher.nextSealOrdinal = 0 := by
  unfold FrameCipher.new
  split
  · rename_i error herror
    refine ⟨fun h => by simp at h, fun h => ?_⟩
    have hvalid := cipher.valid
    rw [h.1, herror] at hvalid
    simp at hvalid
  · rename_i hvalid
    split
    · rename_i hnone
      simp [hnone]
    · rename_i fileKey hkey
      obtain ⟨descriptor', valid', fileKey', next'⟩ := cipher
      simp only [Except.ok.injEq, FrameCipher.mk.injEq, hkey, Option.some.injEq]
      constructor
      · rintro ⟨rfl, rfl, rfl⟩
        exact ⟨rfl, rfl, rfl⟩
      · rintro ⟨rfl, rfl, rfl⟩
        exact ⟨rfl, rfl, rfl⟩

section Frames

variable {prims : FramePrimitives} {cipher : FrameCipher} {total : UInt64}

/-- The length of the frame at an ordinal, zero behind the end of the object. -/
def frameLengthAt (descriptor : EncryptionDescriptor) (total : UInt64) (ordinal : Nat) : Nat :=
  min descriptor.frameBytes.toNat (total.toNat - ordinal * descriptor.frameBytes.toNat)

theorem validateFrame_eq_ok {ordinal actual expected : UInt64} :
    cipher.validateFrame ordinal total actual = .ok expected ↔
      ordinal.toNat * cipher.descriptor.frameBytes.toNat < total.toNat ∧
      actual.toNat = frameLengthAt cipher.descriptor total ordinal.toNat ∧ expected = actual := by
  have htotal := total.toNat_lt
  simp only [FrameCipher.validateFrame, bind_eq_ok, orFail_eq_ok, checkedMul_eq_some, ensure_eq_ok, Bool.not_eq_true',
    decide_eq_false_iff_not, not_le, beq_iff_eq, Except.ok.injEq]
  constructor
  · rintro ⟨offset, ⟨_, rfl⟩, _, hoffset, _, hlength, rfl⟩
    exact ⟨hoffset, hlength, by rw [← hlength, UInt64.ofNat_toNat]⟩
  · rintro ⟨hoffset, hlength, rfl⟩
    refine ⟨_, ⟨by omega, rfl⟩, (), hoffset, (), hlength, ?_⟩
    rw [← frameLengthAt, ← hlength, UInt64.ofNat_toNat]

/-- The ordinal of a frame of the object fits its 64-bit field, and so does the next one. -/
theorem ordinal_succ_lt {ordinal : Nat} (h : ordinal * cipher.descriptor.frameBytes.toNat < total.toNat) :
    ordinal + 1 < 2 ^ 64 := by
  have htotal := total.toNat_lt
  have hpos := frameBytes_pos cipher.valid
  have hle := Nat.le_mul_of_pos_right ordinal hpos
  omega

theorem validateLength_canonical {ordinal length : Nat}
    (hordinal : ordinal * cipher.descriptor.frameBytes.toNat < total.toNat)
    (hlength : length = frameLengthAt cipher.descriptor total ordinal) :
    (lengthU64 length >>= cipher.validateFrame (UInt64.ofNat ordinal) total) = .ok (UInt64.ofNat length) := by
  have hsucc := ordinal_succ_lt hordinal
  have htotal := total.toNat_lt
  have hle : length ≤ total.toNat := by
    rw [hlength, frameLengthAt]
    omega
  have hordinalNat : (UInt64.ofNat ordinal).toNat = ordinal := toNat_ofNat_u64 (by omega)
  have hlengthNat : (UInt64.ofNat length).toNat = length := toNat_ofNat_u64 (by omega)
  have hbound : length < 2 ^ 64 := by omega
  rw [lengthU64, ensure, decide_eq_true hbound, if_pos rfl, ok_bind, ok_bind, validateFrame_eq_ok, hordinalNat, hlengthNat]
  exact ⟨hordinal, hlength, rfl⟩

/-- AES-GCM applied to the frame at an ordinal: ciphertext and tag. -/
def encryptFrame (prims : FramePrimitives) (descriptor : EncryptionDescriptor) (fileKey : Bytes 32) (total : UInt64)
    (ordinal : Nat) (frame : List UInt8) : Option (List UInt8 × Bytes 16) :=
  (prims.encrypt fileKey (nonce (UInt64.ofNat ordinal))
    (frameAad descriptor (UInt64.ofNat ordinal) (UInt64.ofNat frame.length) total) frame).map
      fun (ciphertext, tag) => (ciphertext.val, tag)

/-- AES-GCM applied backwards to the frame at an ordinal. -/
def decryptFrame (prims : FramePrimitives) (descriptor : EncryptionDescriptor) (fileKey : Bytes 32) (total : UInt64)
    (ordinal : Nat) (frame : List UInt8) (tag : Bytes 16) : Option (List UInt8) :=
  (prims.decrypt fileKey (nonce (UInt64.ofNat ordinal))
    (frameAad descriptor (UInt64.ofNat ordinal) (UInt64.ofNat frame.length) total) frame tag).map Subtype.val

/-- A codec under a descriptor and a file key, about to seal the frame at an ordinal. -/
structure FrameCipher.StandsAt (cipher : FrameCipher) (descriptor : EncryptionDescriptor) (fileKey : Bytes 32)
    (ordinal : Nat) : Prop where
  descriptor_eq : cipher.descriptor = descriptor
  fileKey_eq : cipher.fileKey = fileKey
  next_eq : cipher.nextSealOrdinal = UInt64.ofNat ordinal

theorem sealFrame_canonical (prims : FramePrimitives) {descriptor : EncryptionDescriptor} {fileKey : Bytes 32} {ordinal : Nat}
    {frame : List UInt8} (hcipher : cipher.StandsAt descriptor fileKey ordinal)
    (hordinal : ordinal * descriptor.frameBytes.toNat < total.toNat)
    (hlength : frame.length = frameLengthAt descriptor total ordinal) :
    (cipher.sealFrame prims (UInt64.ofNat ordinal) total frame).result =
        (encryptFrame prims descriptor fileKey total ordinal frame).orFail .crypto ∧
      ((encryptFrame prims descriptor fileKey total ordinal frame).isSome →
        (cipher.sealFrame prims (UInt64.ofNat ordinal) total frame).cipher.StandsAt descriptor fileKey
          (ordinal + 1)) := by
  obtain ⟨rfl, rfl, hnext⟩ := hcipher
  have hsucc := ordinal_succ_lt hordinal
  have hordinalNat : (UInt64.ofNat ordinal).toNat = ordinal := toNat_ofNat_u64 (by omega)
  have hadd : checkedAdd cipher.nextSealOrdinal.toNat 1 = some (ordinal + 1) := by
    rw [hnext, hordinalNat, checkedAdd, if_pos hsucc]
  have hturn : ¬ UInt64.ofNat ordinal ≠ cipher.nextSealOrdinal := fun h => h hnext.symm
  rw [FrameCipher.sealFrame, if_neg hturn, validateLength_canonical hordinal hlength, encryptFrame]
  rcases hencrypt : prims.encrypt cipher.fileKey (nonce (UInt64.ofNat ordinal))
    (frameAad cipher.descriptor (UInt64.ofNat ordinal) (UInt64.ofNat frame.length) total) frame with _ | ⟨ciphertext, tag⟩
  · simp [hencrypt, Option.orFail]
  · simp only [hencrypt, hadd, Option.map_some, some_orFail, Option.isSome_some, forall_const, true_and]
    exact ⟨rfl, rfl, rfl⟩

theorem openFrame_canonical {ordinal : Nat} {frame : List UInt8} {tag : Bytes 16}
    (hordinal : ordinal * cipher.descriptor.frameBytes.toNat < total.toNat)
    (hlength : frame.length = frameLengthAt cipher.descriptor total ordinal) :
    cipher.openFrame prims (UInt64.ofNat ordinal) total frame tag =
      (decryptFrame prims cipher.descriptor cipher.fileKey total ordinal frame tag).orFail .crypto := by
  rw [FrameCipher.openFrame, validateLength_canonical hordinal hlength, ok_bind, decryptFrame]
  dsimp only
  rcases prims.decrypt cipher.fileKey (nonce (UInt64.ofNat ordinal))
    (frameAad cipher.descriptor (UInt64.ofNat ordinal) (UInt64.ofNat frame.length) total) frame tag with _ | plaintext
  · rfl
  · rfl

end Frames

/-! ### The layout -/

section Layout

variable (prims : FramePrimitives) (descriptor : EncryptionDescriptor) (fileKey : Bytes 32) (total : UInt64)

/-- The frames of an object from an ordinal on, each followed by its tag. -/
def encodedFrames : Nat → List (List UInt8) → Option (List UInt8)
  | _, [] => some []
  | ordinal, frame :: frames => do
      let (ciphertext, tag) ← encryptFrame prims descriptor fileKey total ordinal frame
      let rest ← encodedFrames (ordinal + 1) frames
      some (ciphertext ++ tag.val ++ rest)

/-- The plaintext of the next `count` frames and the bytes behind them. -/
def openedFrames : Nat → Nat → List UInt8 → Option (List UInt8 × List UInt8)
  | 0, _, encoded => some ([], encoded)
  | count + 1, ordinal, encoded => do
      let length := frameLengthAt descriptor total ordinal
      let tag ← tryInto 16 ((encoded.drop length).take 16)
      let frame ← decryptFrame prims descriptor fileKey total ordinal (encoded.take length) tag
      let (rest, behind) ← openedFrames count (ordinal + 1) (encoded.drop (length + 16))
      some (frame ++ rest, behind)

end Layout

theorem tryInto_eq_some {width : Nat} {bytes : List UInt8} {array : Bytes width} :
    tryInto width bytes = some array ↔ bytes = array.val := by
  unfold tryInto
  split_ifs with hwidth
  · constructor
    · intro h
      exact Option.some.inj h ▸ rfl
    · rintro rfl
      rfl
  · exact ⟨fun h => by simp at h, fun h => absurd (h ▸ array.length_val) hwidth⟩

theorem decryptFrame_length {prims : FramePrimitives} {descriptor : EncryptionDescriptor} {fileKey : Bytes 32}
    {total : UInt64} {ordinal : Nat} {frame plaintext : List UInt8} {tag : Bytes 16}
    (h : decryptFrame prims descriptor fileKey total ordinal frame tag = some plaintext) :
    plaintext.length = frame.length := by
  obtain ⟨decrypted, _, rfl⟩ := Option.map_eq_some_iff.mp h
  exact decrypted.property

theorem encryptFrame_length {prims : FramePrimitives} {descriptor : EncryptionDescriptor} {fileKey : Bytes 32}
    {total : UInt64} {ordinal : Nat} {frame ciphertext : List UInt8} {tag : Bytes 16}
    (h : encryptFrame prims descriptor fileKey total ordinal frame = some (ciphertext, tag)) :
    ciphertext.length = frame.length := by
  obtain ⟨⟨encrypted, _⟩, _, hresult⟩ := Option.map_eq_some_iff.mp h
  obtain ⟨rfl, _⟩ := Prod.mk.inj hresult
  exact encrypted.property

/-! ### The number of frames -/

theorem expectedBlockCount_step {sizeBytes blockBytes : Nat} (hblock : 0 < blockBytes) (hsize : 0 < sizeBytes) :
    expectedBlockCount sizeBytes blockBytes = expectedBlockCount (sizeBytes - blockBytes) blockBytes + 1 := by
  rw [expectedBlockCount, if_neg (by omega), expectedBlockCount]
  split_ifs with hlast
  · rw [Nat.div_eq_of_lt (by omega)]
  · have hstep : sizeBytes - 1 = sizeBytes - blockBytes - 1 + blockBytes := by omega
    rw [hstep, Nat.add_div_right _ hblock]
    omega

theorem divCeil_eq_expectedBlockCount {sizeBytes blockBytes : Nat} (hblock : 0 < blockBytes) :
    (sizeBytes + blockBytes - 1) / blockBytes = expectedBlockCount sizeBytes blockBytes := by
  rw [expectedBlockCount]
  split_ifs with hempty
  · exact Nat.div_eq_of_lt (by omega)
  · have hshift : sizeBytes + blockBytes - 1 = sizeBytes - 1 + blockBytes := by omega
    rw [hshift, Nat.add_div_right _ hblock, Nat.add_comm]

/-- Behind a frame of the object the remaining bytes are those of the next ordinal. -/
theorem remaining_succ (descriptor : EncryptionDescriptor) (total : UInt64) (ordinal : Nat) :
    total.toNat - (ordinal + 1) * descriptor.frameBytes.toNat =
      total.toNat - ordinal * descriptor.frameBytes.toNat - descriptor.frameBytes.toNat := by
  rw [Nat.add_mul, Nat.one_mul]
  omega

/-- The frames of an object from an ordinal on. -/
def framesBehind (descriptor : EncryptionDescriptor) (total : UInt64) (ordinal : Nat) : Nat :=
  expectedBlockCount (total.toNat - ordinal * descriptor.frameBytes.toNat) descriptor.frameBytes.toNat

theorem framesBehind_eq_zero {descriptor : EncryptionDescriptor} {total : UInt64} {ordinal : Nat}
    (hvalid : validateDescriptor descriptor = .ok ()) (h : 0 = framesBehind descriptor total ordinal) :
    total.toNat - ordinal * descriptor.frameBytes.toNat = 0 := by
  by_contra hmore
  rw [framesBehind, expectedBlockCount_step (frameBytes_pos hvalid) (Nat.pos_of_ne_zero hmore)] at h
  omega

theorem framesBehind_eq_succ {descriptor : EncryptionDescriptor} {total : UInt64} {ordinal left : Nat}
    (hvalid : validateDescriptor descriptor = .ok ()) (h : left + 1 = framesBehind descriptor total ordinal) :
    ordinal * descriptor.frameBytes.toNat < total.toNat ∧ left = framesBehind descriptor total (ordinal + 1) := by
  have hmore : 0 < total.toNat - ordinal * descriptor.frameBytes.toNat := by
    by_contra hnone
    rw [framesBehind, Nat.eq_zero_of_not_pos hnone] at h
    simp [expectedBlockCount] at h
  rw [framesBehind, expectedBlockCount_step (frameBytes_pos hvalid) hmore, ← remaining_succ, ← framesBehind] at h
  omega

/-! ### Every loop follows the layout -/

section Loops

variable {prims : FramePrimitives} {descriptor : EncryptionDescriptor} {fileKey : Bytes 32} {total : UInt64}
  (hvalid : validateDescriptor descriptor = .ok ())

include hvalid in
theorem sealChunks_eq {cipher : FrameCipher} {ordinal : Nat} (hcipher : cipher.StandsAt descriptor fileKey ordinal)
    {rest : List UInt8} (hrest : rest.length = total.toNat - ordinal * descriptor.frameBytes.toNat)
    (encoded : List UInt8) :
    sealChunks prims total cipher ordinal (chunks descriptor.frameBytes.toNat rest) encoded =
      ((encodedFrames prims descriptor fileKey total ordinal (chunks descriptor.frameBytes.toNat rest)).map
        (encoded ++ ·)).orFail (.reported .crypto) := by
  have hpos := frameBytes_pos hvalid
  induction rest using chunks_induction hpos generalizing cipher ordinal encoded with
  | hnil => simp [chunks_nil, sealChunks, encodedFrames]
  | hcons rest hmore ih =>
      have hlen := List.length_pos_iff.mpr hmore
      have hframe : (rest.take descriptor.frameBytes.toNat).length = frameLengthAt descriptor total ordinal := by
        rw [List.length_take, hrest, frameLengthAt]
      obtain ⟨hresult, hnext⟩ := sealFrame_canonical prims hcipher (by omega) hframe
      rw [chunks_cons hpos hmore, sealChunks, encodedFrames]
      dsimp only
      rw [hresult]
      rcases hencrypt : encryptFrame prims descriptor fileKey total ordinal (rest.take descriptor.frameBytes.toNat)
        with _ | ⟨ciphertext, tag⟩
      · rfl
      · have hbehind : (rest.drop descriptor.frameBytes.toNat).length =
            total.toNat - (ordinal + 1) * descriptor.frameBytes.toNat := by
          rw [List.length_drop, hrest, remaining_succ]
        simp only [some_orFail, reporting_ok, ok_bind, ih (hnext (by rw [hencrypt]; rfl)) hbehind]
        rcases encodedFrames prims descriptor fileKey total (ordinal + 1)
          (chunks descriptor.frameBytes.toNat (rest.drop descriptor.frameBytes.toNat)) with _ | behind
        · rfl
        · simp

include hvalid in
/-- A successful loop of `open` needs no more than that the encoded bytes reach far enough. -/
theorem openChunks_eq {cipher : FrameCipher} (hdescriptor : cipher.descriptor = descriptor)
    (hkey : cipher.fileKey = fileKey) {encoded : List UInt8} {left ordinal offset : Nat} {decoded : List UInt8}
    (hleft : left = framesBehind descriptor total ordinal)
    (hdecoded : decoded.length + (total.toNat - ordinal * descriptor.frameBytes.toNat) = total.toNat)
    (hlength : offset + (total.toNat - ordinal * descriptor.frameBytes.toNat) + left * 16 = encoded.length) :
    openChunks prims cipher encoded total left ordinal offset decoded =
      ((openedFrames prims descriptor fileKey total left ordinal (encoded.drop offset)).map
        fun opened => decoded ++ opened.1).orFail (.reported .crypto) := by
  have hpos := frameBytes_pos hvalid
  induction left generalizing ordinal offset decoded with
  | zero => simp [openChunks, openedFrames]
  | succ left ih =>
      obtain ⟨hordinal, hnext⟩ := framesBehind_eq_succ hvalid hleft
      have hbehind := remaining_succ descriptor total ordinal
      have hframeLength : min descriptor.frameBytes.toNat (total.toNat - decoded.length) =
          frameLengthAt descriptor total ordinal := by
        rw [frameLengthAt]
        omega
      have hsplit : frameLengthAt descriptor total ordinal +
          (total.toNat - (ordinal + 1) * descriptor.frameBytes.toNat) =
            total.toNat - ordinal * descriptor.frameBytes.toNat := by
        rw [frameLengthAt, hbehind]
        omega
      have hframe : ((encoded.drop offset).take (frameLengthAt descriptor total ordinal)).length =
          frameLengthAt descriptor total ordinal := by
        rw [List.length_take, List.length_drop]
        omega
      obtain ⟨tag, htag⟩ : ∃ tag : Bytes 16,
          (encoded.drop (offset + frameLengthAt descriptor total ordinal)).take 16 = tag.val := by
        refine ⟨⟨_, ?_⟩, rfl⟩
        rw [List.length_take, List.length_drop]
        omega
      have hdropped : (encoded.drop offset).drop (frameLengthAt descriptor total ordinal) =
          encoded.drop (offset + frameLengthAt descriptor total ordinal) := List.drop_drop
      have hfirst : (subslice encoded offset (frameLengthAt descriptor total ordinal) :
          Except (Fault Error) (List UInt8)) =
            .ok ((encoded.drop offset).take (frameLengthAt descriptor total ordinal)) :=
        subslice_eq_ok.mpr ⟨by omega, rfl⟩
      have hsecond : (subslice encoded (offset + frameLengthAt descriptor total ordinal) 16 :
          Except (Fault Error) (List UInt8)) =
            .ok ((encoded.drop (offset + frameLengthAt descriptor total ordinal)).take 16) :=
        subslice_eq_ok.mpr ⟨by omega, rfl⟩
      have hopen : cipher.openFrame prims (UInt64.ofNat ordinal) total
          ((encoded.drop offset).take (frameLengthAt descriptor total ordinal)) tag =
            (decryptFrame prims descriptor fileKey total ordinal
              ((encoded.drop offset).take (frameLengthAt descriptor total ordinal)) tag).orFail .crypto := by
        subst hdescriptor
        subst hkey
        exact openFrame_canonical (by omega) hframe
      rw [openChunks, openedFrames]
      dsimp only
      rw [hdescriptor, hframeLength, hfirst, ok_bind, hsecond, ok_bind, tryInto_eq_some.mpr htag, some_orFail, reporting_ok,
        ok_bind, hopen, hdropped, tryInto_eq_some.mpr htag]
      simp only [Option.bind_eq_bind, Option.bind_some]
      rcases hdecrypt : decryptFrame prims descriptor fileKey total ordinal
        ((encoded.drop offset).take (frameLengthAt descriptor total ordinal)) tag with _ | plaintext
      · rfl
      · have hplaintext : plaintext.length = frameLengthAt descriptor total ordinal :=
          (decryptFrame_length hdecrypt).trans hframe
        rw [some_orFail, reporting_ok, ok_bind, Option.bind_some, ih hnext (by rw [List.length_append]; omega) (by omega),
          List.drop_drop]
        rcases openedFrames prims descriptor fileKey total left (ordinal + 1)
          (encoded.drop (offset + (frameLengthAt descriptor total ordinal + 16))) with _ | ⟨behind, rest⟩
        · rfl
        · simp

end Loops

/-! ### Lengths and the inverse -/

section Inverse

variable {prims : FramePrimitives} {descriptor : EncryptionDescriptor} {fileKey : Bytes 32} {total : UInt64}

theorem encodedFrames_length {ordinal : Nat} {frames : List (List UInt8)} {encoded : List UInt8}
    (h : encodedFrames prims descriptor fileKey total ordinal frames = some encoded) :
    encoded.length = frames.flatten.length + frames.length * 16 := by
  induction frames generalizing ordinal encoded with
  | nil =>
      simp only [encodedFrames, Option.some.injEq] at h
      simp [← h]
  | cons frame frames ih =>
      simp only [encodedFrames, Option.bind_eq_bind, Option.bind_eq_some_iff, Option.some.injEq] at h
      obtain ⟨⟨ciphertext, tag⟩, hencrypt, rest, hrest, rfl⟩ := h
      have hframe := encryptFrame_length hencrypt
      have hbehind := ih hrest
      simp only [List.length_append, List.flatten_cons, List.length_cons, Bytes.length_val]
      omega

theorem openedFrames_length (hvalid : validateDescriptor descriptor = .ok ()) {count ordinal : Nat}
    {encoded plaintext behind : List UInt8}
    (hcount : count = framesBehind descriptor total ordinal)
    (h : openedFrames prims descriptor fileKey total count ordinal encoded = some (plaintext, behind)) :
    plaintext.length = total.toNat - ordinal * descriptor.frameBytes.toNat ∧
      encoded.length = plaintext.length + count * 16 + behind.length := by
  have hpos := frameBytes_pos hvalid
  induction count generalizing ordinal encoded plaintext with
  | zero =>
      rw [openedFrames, Option.some.injEq, Prod.mk.injEq] at h
      obtain ⟨rfl, rfl⟩ := h
      simp [framesBehind_eq_zero hvalid hcount]
  | succ count ih =>
      obtain ⟨hordinal, hnext⟩ := framesBehind_eq_succ hvalid hcount
      have hbehind := remaining_succ descriptor total ordinal
      simp only [openedFrames, Option.bind_eq_bind, Option.bind_eq_some_iff, Option.some.injEq, Prod.mk.injEq] at h
      obtain ⟨tag, htag, frame, hframe, ⟨rest, last⟩, hrest, rfl, rfl⟩ := h
      obtain ⟨hrestLength, hlength⟩ := ih hnext hrest
      have htagLength := congrArg List.length (tryInto_eq_some.mp htag)
      have hframeLength := decryptFrame_length hframe
      rw [Bytes.length_val] at htagLength
      simp only [List.length_take, List.length_drop, frameLengthAt] at htagLength hframeLength hlength
      simp only [List.length_append]
      omega

/-- AES-GCM decrypts what it encrypted. -/
def FramePrimitives.Decrypts (prims : FramePrimitives) : Prop :=
  ∀ key nonce aad frame ciphertext tag, prims.encrypt key nonce aad frame = some (ciphertext, tag) →
    (prims.decrypt key nonce aad ciphertext.val tag).map Subtype.val = some frame

theorem decryptFrame_encryptFrame (hdecrypts : prims.Decrypts) {ordinal : Nat} {frame ciphertext : List UInt8}
    {tag : Bytes 16} (h : encryptFrame prims descriptor fileKey total ordinal frame = some (ciphertext, tag)) :
    decryptFrame prims descriptor fileKey total ordinal ciphertext tag = some frame := by
  have hlength := encryptFrame_length h
  obtain ⟨⟨encrypted, _⟩, hencrypt, hresult⟩ := Option.map_eq_some_iff.mp h
  obtain ⟨rfl, rfl⟩ := Prod.mk.inj hresult
  have hfield : UInt64.ofNat encrypted.val.length = UInt64.ofNat frame.length := congrArg UInt64.ofNat hlength
  rw [decryptFrame, hfield]
  exact hdecrypts _ _ _ _ _ _ hencrypt

/-- Opening what was encoded gives back the plaintext and leaves what stands behind it. -/
theorem openedFrames_encodedFrames (hdecrypts : prims.Decrypts) (hvalid : validateDescriptor descriptor = .ok ())
    {ordinal : Nat} {rest encoded : List UInt8}
    (hrest : rest.length = total.toNat - ordinal * descriptor.frameBytes.toNat)
    (h : encodedFrames prims descriptor fileKey total ordinal (chunks descriptor.frameBytes.toNat rest) = some encoded)
    (behind : List UInt8) :
    openedFrames prims descriptor fileKey total (chunks descriptor.frameBytes.toNat rest).length ordinal
      (encoded ++ behind) = some (rest, behind) := by
  have hpos := frameBytes_pos hvalid
  induction rest using chunks_induction hpos generalizing ordinal encoded with
  | hnil =>
      rw [chunks_nil, encodedFrames, Option.some.injEq] at h
      simp [chunks_nil, openedFrames, ← h]
  | hcons rest hmore ih =>
      have hframe : (rest.take descriptor.frameBytes.toNat).length = frameLengthAt descriptor total ordinal := by
        rw [List.length_take, hrest, frameLengthAt]
      have hbehind : (rest.drop descriptor.frameBytes.toNat).length =
          total.toNat - (ordinal + 1) * descriptor.frameBytes.toNat := by
        rw [List.length_drop, hrest, remaining_succ]
      rw [chunks_cons hpos hmore] at h ⊢
      simp only [encodedFrames, Option.bind_eq_bind, Option.bind_eq_some_iff, Option.some.injEq] at h
      obtain ⟨⟨ciphertext, tag⟩, hencrypt, more, hencoded, rfl⟩ := h
      have hciphertext : ciphertext.length = frameLengthAt descriptor total ordinal :=
        (encryptFrame_length hencrypt).trans hframe
      have htake : (ciphertext ++ tag.val ++ more ++ behind).take (frameLengthAt descriptor total ordinal) =
          ciphertext := by
        rw [← hciphertext, List.append_assoc, List.append_assoc, List.take_left]
      have hdrop : (ciphertext ++ tag.val ++ more ++ behind).drop (frameLengthAt descriptor total ordinal) =
          tag.val ++ (more ++ behind) := by
        rw [← hciphertext, List.append_assoc, List.append_assoc, List.drop_left]
      have htag : (tag.val ++ (more ++ behind)).take 16 = tag.val := List.take_left' tag.length_val
      have hmoreBytes : (tag.val ++ (more ++ behind)).drop 16 = more ++ behind := List.drop_left' tag.length_val
      rw [List.length_cons, openedFrames]
      dsimp only
      rw [← List.drop_drop, hdrop, htag, hmoreBytes, htake, tryInto_eq_some.mpr rfl]
      simp only [Option.bind_eq_bind, Option.bind_some, decryptFrame_encryptFrame hdecrypts hencrypt, ih hbehind hencoded,
        List.take_append_drop]

end Inverse

end Skydriver
