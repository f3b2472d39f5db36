import Skydriver.Integrity.FileBinding
import Skydriver.Integrity.BlockManifest
import Skydriver.Lib.Buffers

/-!
# Authenticated frames of one file version

The portable codec: a file key derived for one version, one nonce for each frame ordinal, associated data that spell out
the descriptor and the place of the frame, and the two in-memory loops over all frames of an object.  HKDF and AES-GCM
come from outside the repository and are fields of `FramePrimitives`; both encrypt and decrypt in place, so that a
frame never changes its length.
-/

namespace Skydriver

open Checked Fault

def fileKeyInfo : List UInt8 := utf8 "skydriver.vfs.file-key.v1"
def frameAadDomain : List UInt8 := utf8 "skydriver.vfs.file-frame.v1" ++ [0]

/-- The third-party primitives under the frame codec. -/
structure FramePrimitives where
  /-- HKDF-SHA-256 expanded to one key: salt, input key, info. -/
  hkdf : Bytes 32 → Bytes 32 → List UInt8 → Option (Bytes 32)
  /-- AES-256-GCM: key, nonce, associated data and the frame in place; the tag is detached. -/
  encrypt : Bytes 32 → Bytes 12 → List UInt8 → (frame : List UInt8) → Option (Bytes frame.length × Bytes 16)
  /-- The same with the tag to be checked. -/
  decrypt : Bytes 32 → Bytes 12 → List UInt8 → (frame : List UInt8) → Bytes 16 → Option (Bytes frame.length)

/-- Descriptor for one immutable encrypted file version. -/
structure EncryptionDescriptor where
  directoryId : Identity
  versionId : Identity
  keyEpoch : UInt64
  frameBytes : UInt64
deriving DecidableEq

def validateDescriptor (descriptor : EncryptionDescriptor) : Except Error Unit :=
  ensure (.invalidInput "invalid encryption descriptor") (!(descriptor.keyEpoch == 0 || descriptor.frameBytes == 0))

/-- Version-scoped authenticated frame codec; it is only built for a valid descriptor. -/
structure FrameCipher where
  descriptor : EncryptionDescriptor
  valid : validateDescriptor descriptor = .ok ()
  fileKey : Bytes 32
  nextSealOrdinal : UInt64

theorem nonce_length (ordinal : UInt64) :
    (List.replicate 4 (0 : UInt8) ++ bigEndian 8 ordinal.toNat).length = 12 := by
  simp

/-- The 96-bit nonce of a frame: four zero bytes and its ordinal. -/
def nonce (ordinal : UInt64) : Bytes 12 := ⟨List.replicate 4 0 ++ bigEndian 8 ordinal.toNat, nonce_length ordinal⟩

def frameAad (descriptor : EncryptionDescriptor) (ordinal framePlaintextBytes totalPlaintextBytes : UInt64) :
    List UInt8 :=
  frameAadDomain ++ (descriptor.directoryId.val ++ (descriptor.versionId.val ++
    (bigEndian 8 descriptor.keyEpoch.toNat ++ (bigEndian 8 descriptor.frameBytes.toNat ++
      (bigEndian 8 totalPlaintextBytes.toNat ++ (bigEndian 8 ordinal.toNat ++
        bigEndian 8 framePlaintextBytes.toNat))))))

def deriveFileKey (prims : FramePrimitives) (descriptor : EncryptionDescriptor) (directoryKey : Bytes 32) :
    Option (Bytes 32) :=
  prims.hkdf ⟨descriptor.directoryId.val ++ descriptor.versionId.val, by simp⟩ directoryKey fileKeyInfo

/-- `u64::try_from` of a length. -/
def lengthU64 (length : Nat) : Except Error UInt64 := do
  ensure (.invalidInput "frame length exceeds u64") (length < 2 ^ 64)
  .ok (UInt64.ofNat length)

/-- `try_into` of a slice into an array of a fixed width. -/
def tryInto (width : Nat) (bytes : List UInt8) : Option (Bytes width) :=
  if hwidth : bytes.length = width then some ⟨bytes, hwidth⟩ else none

/-- One frame as AES-GCM encrypted it. -/
structure SealedFrame where
  key : Bytes 32
  nonce : Bytes 12
  aad : List UInt8
  plaintext : List UInt8
  ciphertext : List UInt8
  tag : Bytes 16
deriving DecidableEq

/-- What a call of `seal_frame` leaves behind: the codec, the frame that was encrypted during the call, if any, and
the frame buffer and tag or the error that the caller receives. -/
structure SealCall where
  cipher : FrameCipher
  encrypted : Option SealedFrame
  result : Except Error (List UInt8 × Bytes 16)

namespace FrameCipher

/-- Derive one immutable version-scoped frame codec. -/
def new (prims : FramePrimitives) (descriptor : EncryptionDescriptor) (directoryKey : Bytes 32) :
    Except Error FrameCipher :=
  match hvalid : validateDescriptor descriptor with
  | .error error => .error error
  | .ok () =>
      match deriveFileKey prims descriptor directoryKey with
      | none => .error .crypto
      | some fileKey => .ok { descriptor, valid := hvalid, fileKey, nextSealOrdinal := 0 }

/-- The canonical length of a frame, provided that the actual length is the same. -/
def validateFrame (cipher : FrameCipher) (ordinal totalPlaintextBytes actualFrameBytes : UInt64) :
    Except Error UInt64 := do
  let offset ← (checkedMul ordinal.toNat cipher.descriptor.frameBytes.toNat).orFail
    (.invalidInput "frame offset overflows")
  ensure (.invalidInput "frame ordinal exceeds object") (!(offset ≥ totalPlaintextBytes.toNat))
  let expected := min cipher.descriptor.frameBytes.toNat (totalPlaintextBytes.toNat - offset)
  ensure (.invalidInput "frame length differs") (actualFrameBytes.toNat == expected)
  .ok (UInt64.ofNat expected)

/-- Encrypt one exact canonical plaintext frame in place. -/
def sealFrame (prims : FramePrimitives) (cipher : FrameCipher) (ordinal totalPlaintextBytes : UInt64)
    (frame : List UInt8) : SealCall :=
  if ordinal ≠ cipher.nextSealOrdinal then
    ⟨cipher, none, .error (.invalidInput "encryption frames are not strictly ordered")⟩
  else
    match lengthU64 frame.length >>= cipher.validateFrame ordinal totalPlaintextBytes with
    | .error error => ⟨cipher, none, .error error⟩
    | .ok framePlaintextBytes =>
        let aad := frameAad cipher.descriptor ordinal framePlaintextBytes totalPlaintextBytes
        match prims.encrypt cipher.fileKey (nonce ordinal) aad frame with
        | none => ⟨cipher, none, .error .crypto⟩
        | some (ciphertext, tag) =>
            let encrypted := SealedFrame.mk cipher.fileKey (nonce ordinal) aad frame ciphertext.val tag
            match checkedAdd cipher.nextSealOrdinal.toNat 1 with
            | none => ⟨cipher, some encrypted, .error (.invalidInput "encryption frame ordinal overflows")⟩
            | some next =>
                ⟨{ cipher with nextSealOrdinal := UInt64.ofNat next }, some encrypted, .ok (ciphertext.val, tag)⟩

/-- Authenticate and decrypt one exact canonical frame in place. -/
def openFrame (prims : FramePrimitives) (cipher : FrameCipher) (ordinal totalPlaintextBytes : UInt64)
    (frame : List UInt8) (tag : Bytes 16) : Except Error (List UInt8) := do
  let framePlaintextBytes ← lengthU64 frame.length >>= cipher.validateFrame ordinal totalPlaintextBytes
  let aad := frameAad cipher.descriptor ordinal framePlaintextBytes totalPlaintextBytes
  let plaintext ← (prims.decrypt cipher.fileKey (nonce ordinal) aad frame tag).orFail .crypto
  .ok plaintext.val

end FrameCipher

/-! ### Complete objects in memory

The platform has 64-bit pointers, so `usize::try_from` never refuses. -/

/-- The loop of `seal` over the chunks of the plaintext. -/
def sealChunks (prims : FramePrimitives) (totalPlaintextBytes : UInt64) :
    FrameCipher → Nat → List (List UInt8) → List UInt8 → Except (Fault Error) (List UInt8)
  | _, _, [], encoded => .ok encoded
  | cipher, ordinal, source :: sources, encoded => do
      let call := cipher.sealFrame prims (UInt64.ofNat ordinal) totalPlaintextBytes source
      let (frame, tag) ← reporting call.result
      sealChunks prims totalPlaintextBytes call.cipher (ordinal + 1) sources (encoded ++ frame ++ tag.val)

/-- Encrypt a complete in-memory object into independently authenticated frames. -/
def sealObject (prims : FramePrimitives) (plaintext : Slice) (descriptor : EncryptionDescriptor)
    (directoryKey : Bytes 32) : Except (Fault Error) Slice := do
  reporting (validateDescriptor descriptor)
  let cipher ← reporting (FrameCipher.new prims descriptor directoryKey)
  let frameBytes := descriptor.frameBytes.toNat
  -- `Vec::with_capacity`; `div_ceil` rounds the number of frames up
  allocate (plaintext.length + (plaintext.length + frameBytes - 1) / frameBytes * 16)
  let encoded ← sealChunks prims (UInt64.ofNat plaintext.length) cipher 0
    (FileMerkle.chunks frameBytes plaintext.bytes) []
  collect encoded

/-- The loop of `open`; it carries the frames left, the ordinal, the offset and the decoded bytes. -/
def openChunks (prims : FramePrimitives) (cipher : FrameCipher) (encoded : List UInt8) (plaintextBytes : UInt64) :
    Nat → Nat → Nat → List UInt8 → Except (Fault Error) (List UInt8)
  | 0, _, _, decoded => .ok decoded
  | left + 1, ordinal, offset, decoded => do
      let length := min cipher.descriptor.frameBytes.toNat (plaintextBytes.toNat - decoded.length)
      let frame ← subslice encoded offset length
      let tag ← subslice encoded (offset + length) 16
      let tag ← reporting ((tryInto 16 tag).orFail (.invalidInput "frame tag width differs"))
      let plaintext ← reporting (cipher.openFrame prims (UInt64.ofNat ordinal) plaintextBytes frame tag)
      openChunks prims cipher encoded plaintextBytes left (ordinal + 1) (offset + (length + 16)) (decoded ++ plaintext)

/-- Authenticate and decrypt one complete in-memory encoded object. -/
def openObject (prims : FramePrimitives) (encoded : Slice) (plaintextBytes : UInt64)
    (descriptor : EncryptionDescriptor) (directoryKey : Bytes 32) : Except (Fault Error) Slice := do
  reporting (validateDescriptor descriptor)
  let frameBytes := descriptor.frameBytes.toNat
  let frameCount := (plaintextBytes.toNat + frameBytes - 1) / frameBytes
  let overflow : Error := .invalidInput "encoded size overflow"
  let tags ← reporting ((checkedMul frameCount 16).orFail overflow)
  let expected ← reporting ((checkedAdd plaintextBytes.toNat tags).orFail overflow)
  reporting (ensure (.invalidInput "encoded object length mismatch") (encoded.length == expected))
  let cipher ← reporting (FrameCipher.new prims descriptor directoryKey)
  allocate plaintextBytes.toNat
  let decoded ← openChunks prims cipher encoded.bytes plaintextBytes frameCount 0 0 []
  collect decoded

end Skydriver
