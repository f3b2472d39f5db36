import Skydriver.Crypto.Frame

/-!
# Streamed objects

The client seals and opens an object frame by frame between a byte source and a byte sink, with one frame buffer that it
allocates up front.  The control plane never sees a frame; it checks the encoded length of an upload against a formula.
-/

namespace Skydriver

open Checked Fault

/-- `Display` of a failure of the portable core. -/
def Error.display : Error → String
  | .invalidInput message => "invalid Skydriver SDK input: " ++ message
  | .crypto => "Skydriver SDK cryptographic verification failed"

/-! ### The control plane -/

namespace PutCommit

def plaintextSuite : Text := utf8 "plaintext/v1"
def encryptedSuite : Text := utf8 "skydriver-vfs-aes256gcm-hkdfsha256-v1"
def aesGcmFrameTagBytes : Nat := 16

/-- The encoded length that the control plane demands of an upload. -/
def expectedEncodedBytes (cryptoSuite : Text) (plaintextBytes frameBytes : UInt64) : Option UInt64 :=
  if cryptoSuite = plaintextSuite then some plaintextBytes
  else if cryptoSuite = encryptedSuite ∧ 0 < frameBytes then do
    let frameCount := if plaintextBytes = 0 then 0 else 1 + (plaintextBytes.toNat - 1) / frameBytes.toNat
    let tags ← checkedMul frameCount aesGcmFrameTagBytes
    let encoded ← checkedAdd plaintextBytes.toNat tags
    some (UInt64.ofNat encoded)
  else none

end PutCommit

namespace Client

/-- The kinds of transfer failure that the codec reports. -/
inductive FailureKind where
  | corruptCiphertext
deriving DecidableEq

/-- A failure of the client. -/
inductive Error where
  | invalidResponse (message : String)
  | failure (kind : FailureKind) (message : String)
deriving DecidableEq

/-- Descriptor of a streamed object. -/
structure Descriptor where
  directoryId : Identity
  versionId : Identity
  keyEpoch : UInt64
  frameBytes : UInt64
  plaintextBytes : UInt64

def coreDescriptor (descriptor : Descriptor) : EncryptionDescriptor where
  directoryId := descriptor.directoryId
  versionId := descriptor.versionId
  keyEpoch := descriptor.keyEpoch
  frameBytes := descriptor.frameBytes

/-- How `read_exact` reports the end of its source. -/
def unexpectedEof : String := "failed to fill whole buffer"

/-- A failure of the core under a message of the client. -/
def describe {α : Type} (wrap : String → Error) (result : Except Skydriver.Error α) : Except (Fault Error) α :=
  match result with
  | .ok value => .ok value
  | .error error => .error (.reported (wrap error.display))

@[simp] theorem describe_eq_ok {α : Type} {wrap : String → Error} {result : Except Skydriver.Error α} {value : α} :
    describe wrap result = .ok value ↔ result = .ok value := by
  cases result <;> simp [describe]

/-- The number of frames of a streamed object. -/
def frameCount (descriptor : Descriptor) : Nat :=
  if descriptor.plaintextBytes = 0 then 0
  else 1 + (descriptor.plaintextBytes.toNat - 1) / descriptor.frameBytes.toNat

def frameLength (descriptor : Descriptor) (ordinal : Nat) : Nat :=
  min descriptor.frameBytes.toNat (descriptor.plaintextBytes.toNat - ordinal * descriptor.frameBytes.toNat)

/-- The source must be exhausted: a probe for one more byte finds none. -/
def requireEof (input : Reader) : Except (Fault Error) Unit :=
  reporting (ensure (.invalidResponse "source contains trailing bytes") ((input.read 1).1.length == 0))

/-- The loop of `seal_frames` over the frames left; what is written to the output is also what is hashed. -/
def sealLoop (prims : FramePrimitives) (descriptor : Descriptor) :
    Nat → Nat → FrameCipher → Reader → List UInt8 → UInt64 → Except (Fault Error) (Reader × List UInt8 × UInt64)
  | 0, _, _, input, output, encodedBytes => .ok (input, output, encodedBytes)
  | left + 1, ordinal, cipher, input, output, encodedBytes => do
      let plaintextLength := frameLength descriptor ordinal
      let (frame, input) ← reporting ((input.readExact plaintextLength).orFail
        (.invalidResponse ("read encryption frame " ++ toString ordinal ++ ": " ++ unexpectedEof)))
      let call := cipher.sealFrame prims (UInt64.ofNat ordinal) descriptor.plaintextBytes frame
      let (frame, tag) ← describe (fun error => .invalidResponse ("encrypt frame " ++ toString ordinal ++ ": " ++ error))
        call.result
      sealLoop prims descriptor left (ordinal + 1) call.cipher input (output ++ frame ++ tag.val)
        (encodedBytes + (UInt64.ofNat plaintextLength + 16))

/-- Seal the source into the output; returns what was written, its length and its digest. -/
def sealFrames (prims : FramePrimitives) (sha256 : List UInt8 → Digest) (input : Reader) (descriptor : Descriptor)
    (directoryKey : Bytes 32) : Except (Fault Error) (List UInt8 × UInt64 × Text) := do
  reporting (ensure (.invalidResponse "invalid encryption descriptor")
    (!(descriptor.keyEpoch == 0 || descriptor.frameBytes == 0)))
  let cipher ← describe .invalidResponse (FrameCipher.new prims (coreDescriptor descriptor) directoryKey)
  -- `vec![0; frame_capacity]`
  allocate descriptor.frameBytes.toNat
  let (input, output, encodedBytes) ← sealLoop prims descriptor (frameCount descriptor) 0 cipher input [] 0
  requireEof input
  .ok (output, encodedBytes, hexEncode (sha256 output).val)

/-- The loop of `open_frames` over the frames left. -/
def openLoop (prims : FramePrimitives) (descriptor : Descriptor) (cipher : FrameCipher) :
    Nat → Nat → Reader → List UInt8 → Except (Fault Error) (Reader × List UInt8)
  | 0, _, input, output => .ok (input, output)
  | left + 1, ordinal, input, output => do
      let plaintextLength := frameLength descriptor ordinal
      let (frame, input) ← reporting ((input.readExact (plaintextLength + 16)).orFail
        (.failure .corruptCiphertext ("read encrypted frame " ++ toString ordinal ++ ": " ++ unexpectedEof)))
      let tag ← reporting ((tryInto 16 (frame.drop plaintextLength)).orFail
        (.failure .corruptCiphertext ("encrypted frame " ++ toString ordinal ++ " tag width differs")))
      let plaintext ← describe
        (fun error => .failure .corruptCiphertext ("authenticate encrypted frame " ++ toString ordinal ++ ": " ++ error))
        (cipher.openFrame prims (UInt64.ofNat ordinal) descriptor.plaintextBytes (frame.take plaintextLength) tag)
      openLoop prims descriptor cipher left (ordinal + 1) input (output ++ plaintext)

/-- Open the source into the output; returns what was written. -/
def openFrames (prims : FramePrimitives) (input : Reader) (descriptor : Descriptor) (directoryKey : Bytes 32) :
    Except (Fault Error) (List UInt8) := do
  let cipher ← describe .invalidResponse (FrameCipher.new prims (coreDescriptor descriptor) directoryKey)
  let encodedFrameCapacity ← reporting ((checkedAdd descriptor.frameBytes.toNat 16).orFail
    (.invalidResponse "encoded frame size overflows"))
  -- `vec![0; encoded_frame_capacity]`
  allocate encodedFrameCapacity
  let (input, output) ← openLoop prims descriptor cipher (frameCount descriptor) 0 input []
  reporting (ensure (.failure .corruptCiphertext "encrypted object contains trailing bytes")
    ((input.read 1).1.length == 0))
  .ok output

end Client

end Skydriver
