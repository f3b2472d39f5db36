import Skydriver.Crypto.RoundTrip
import Skydriver.Vfs.Merkle

/-!
# File encryption on the data-plane side

The service that moves file contents seals and opens an object with a cipher of its own, frame by frame between a source
and a destination.  It numbers the frames with wrapping 64-bit integers, checks sizes once in the descriptor, and keeps
ciphertext and tag of a frame in one buffer.
-/

namespace Skydriver.Cryptofile

open Checked Fault

inductive CryptofileError where
  | invalidDescriptor (message : String)
  | invalidKey (message : String)
  | authentication (message : String)
  | streamLength (message : String)
  | derive (message : String)
deriving DecidableEq, Repr

def suite : Text := utf8 "skydriver-vfs-aes256gcm-hkdfsha256-v1"
def frameTagBytes : UInt64 := 16
def fileKeyInfo : List UInt8 := utf8 "skydriver.vfs.file-key.v1"
def frameAADDomain : List UInt8 := utf8 "skydriver.vfs.file-frame.v1"
/-- `math.MaxInt64`, which is `math.MaxInt` too. -/
def maxInt : UInt64 := 9223372036854775807
/-- `math.MaxUint32`. -/
def maxUint32 : UInt64 := 4294967295
/-- `math.MaxUint64`. -/
def maxUint64 : UInt64 := 18446744073709551615

/-- The immutable public context authenticated by every frame. -/
structure Descriptor where
  suite : Text
  directoryId : Identity
  versionId : Identity
  keyEpoch : UInt64
  frameBytes : UInt64
  plaintextBytes : UInt64
deriving DecidableEq

/-- The exact identity of a complete encoded object. -/
structure TransformResult where
  plaintextBytes : UInt64
  encodedBytes : UInt64
  encodedSHA256 : Digest
deriving DecidableEq

namespace Descriptor

def frameCount (descriptor : Descriptor) : UInt64 :=
  if descriptor.plaintextBytes = 0 ∨ descriptor.frameBytes = 0 then 0
  else 1 + (descriptor.plaintextBytes - 1) / descriptor.frameBytes

def validate (descriptor : Descriptor) : Except CryptofileError Unit := do
  ensure (.invalidDescriptor "unsupported suite") (descriptor.suite == Cryptofile.suite)
  ensure (.invalidDescriptor "directory and version IDs are required")
    (!(Merkle.isZero descriptor.directoryId || Merkle.isZero descriptor.versionId))
  ensure (.invalidDescriptor "key epoch and frame size must be positive")
    (!(descriptor.keyEpoch == 0 || descriptor.frameBytes == 0))
  ensure (.invalidDescriptor "file or frame exceeds streaming limits")
    (!(descriptor.plaintextBytes > maxInt || descriptor.frameBytes > maxInt))
  ensure (.invalidDescriptor "frame count exceeds nonce policy") (!(descriptor.frameCount > maxUint32))

/-- The exact length of all ciphertexts and tags. -/
def encodedBytes (descriptor : Descriptor) : Except CryptofileError UInt64 := do
  descriptor.validate
  let frames := descriptor.frameCount
  ensure (.invalidDescriptor "encoded length overflows")
    (!(frames > (maxUint64 - descriptor.plaintextBytes) / frameTagBytes))
  .ok (descriptor.plaintextBytes + frames * frameTagBytes)

def aadPrefix (descriptor : Descriptor) : List UInt8 :=
  frameAADDomain ++ [0] ++ descriptor.directoryId.val ++ descriptor.versionId.val ++
    bigEndian 8 descriptor.keyEpoch.toNat ++ bigEndian 8 descriptor.frameBytes.toNat ++
    bigEndian 8 descriptor.plaintextBytes.toNat

end Descriptor

/-- Whether all bytes are zero: their disjunction is. -/
def allZero (value : List UInt8) : Bool := value.foldl (fun combined element => combined ||| element) 0 == 0

def deriveFileKey (prims : FramePrimitives) (directoryKey : Bytes 32) (descriptor : Descriptor) :
    Except CryptofileError (Bytes 32) := do
  ensure (.invalidKey "key must not be zero") (!allZero directoryKey.val)
  (prims.hkdf ⟨descriptor.directoryId.val ++ descriptor.versionId.val, by simp⟩ directoryKey fileKeyInfo).orFail
    (.derive "derive Skydriver VFS file key")

/-- A cipher for one file version; the AES-GCM instance is given by its key. -/
structure Cipher where
  descriptor : Descriptor
  aead : Bytes 32
  frameCount : UInt64
  aadPrefix : List UInt8

/-- `New`.  AES takes every key of 32 bytes, and GCM has nonces of 12 and tags of 16 bytes. -/
def new (prims : FramePrimitives) (directoryKey : Bytes 32) (descriptor : Descriptor) :
    Except CryptofileError Cipher := do
  descriptor.validate
  let fileKey ← deriveFileKey prims directoryKey descriptor
  .ok { descriptor, aead := fileKey, frameCount := descriptor.frameCount, aadPrefix := descriptor.aadPrefix }

def safeFrameCapacity (frameBytes overhead : UInt64) : Except CryptofileError UInt64 := do
  ensure (.invalidDescriptor "frame allocation exceeds address space")
    (!(frameBytes > maxInt || overhead > maxInt - frameBytes))
  .ok (frameBytes + overhead)

def frameNonce (ordinal : UInt64) : Bytes 12 := ⟨List.replicate 4 0 ++ bigEndian 8 ordinal.toNat, nonce_length ordinal⟩

namespace Cipher

def frameAAD (fileCipher : Cipher) (ordinal plaintextBytes : UInt64) : List UInt8 :=
  fileCipher.aadPrefix ++ bigEndian 8 ordinal.toNat ++ bigEndian 8 plaintextBytes.toNat

def plaintextFrameBytes (fileCipher : Cipher) (ordinal : UInt64) : UInt64 :=
  let offset := ordinal * fileCipher.descriptor.frameBytes
  min fileCipher.descriptor.frameBytes (fileCipher.descriptor.plaintextBytes - offset)

end Cipher

/-- `aead.Seal`: ciphertext and tag; a message too large for GCM is a panic. -/
def aeadSeal (prims : FramePrimitives) (key : Bytes 32) (nonce : Bytes 12) (plaintext aad : List UInt8) :
    Except (Fault CryptofileError) (List UInt8) :=
  match prims.encrypt key nonce aad plaintext with
  | none => .error .panicked
  | some (ciphertext, tag) => .ok (ciphertext.val ++ tag.val)

/-- `aead.Open`: the tag is the last 16 bytes. -/
def aeadOpen (prims : FramePrimitives) (key : Bytes 32) (nonce : Bytes 12) (encoded aad : List UInt8) :
    Option (List UInt8) := do
  let tag ← tryInto 16 (encoded.drop (encoded.length - 16))
  let plaintext ← prims.decrypt key nonce aad (encoded.take (encoded.length - 16)) tag
  some plaintext.val

/-- `buffer[:length]` of a buffer that holds `capacity` bytes. -/
def sliceBuffer (capacity length : UInt64) : Except (Fault CryptofileError) Unit := ensure .panicked (length ≤ capacity)

/-- The source must be exhausted: a probe for one more byte finds none. -/
def requireEOF (source : Reader) : Except (Fault CryptofileError) Unit :=
  reporting (ensure (.streamLength "input contains trailing bytes") ((source.read 1).1.length == 0))

/-- The loop of `Seal` over the frames left; what is written to the destination is also what is hashed. -/
def sealLoop (prims : FramePrimitives) (fileCipher : Cipher) :
    Nat → UInt64 → Reader → List UInt8 → UInt64 → Except (Fault CryptofileError) (Reader × List UInt8 × UInt64)
  | 0, _, source, destination, plaintextTotal => .ok (source, destination, plaintextTotal)
  | left + 1, ordinal, source, destination, plaintextTotal => do
      let plaintextBytes := fileCipher.plaintextFrameBytes ordinal
      sliceBuffer fileCipher.descriptor.frameBytes plaintextBytes
      let (plaintext, source) ← reporting ((source.readExact plaintextBytes.toNat).orFail
        (.streamLength ("read frame " ++ toString ordinal)))
      let encoded ← aeadSeal prims fileCipher.aead (frameNonce ordinal) plaintext
        (fileCipher.frameAAD ordinal plaintextBytes)
      sealLoop prims fileCipher left (ordinal + 1) source (destination ++ encoded) (plaintextTotal + plaintextBytes)

/-- Encrypt exactly one complete plaintext file; returns the result and what was written. -/
def Cipher.seal (prims : FramePrimitives) (sha256 : List UInt8 → Digest) (fileCipher : Cipher) (source : Reader) :
    Except (Fault CryptofileError) (TransformResult × List UInt8) := do
  let encodedBytes ← reporting fileCipher.descriptor.encodedBytes
  let frameCapacity ← reporting (safeFrameCapacity fileCipher.descriptor.frameBytes frameTagBytes)
  allocate frameCapacity.toNat
  let (source, destination, plaintextBytes) ← sealLoop prims fileCipher fileCipher.frameCount.toNat 0 source [] 0
  requireEOF source
  .ok ({ plaintextBytes, encodedBytes, encodedSHA256 := sha256 destination }, destination)

/-- The loop of `Open` over the frames left; it also carries the bytes that are hashed. -/
def openLoop (prims : FramePrimitives) (fileCipher : Cipher) (frameCapacity : UInt64) :
    Nat → UInt64 → Reader → List UInt8 → List UInt8 → UInt64 →
      Except (Fault CryptofileError) (Reader × List UInt8 × List UInt8 × UInt64)
  | 0, _, source, hashed, destination, plaintextTotal => .ok (source, hashed, destination, plaintextTotal)
  | left + 1, ordinal, source, hashed, destination, plaintextTotal => do
      let plaintextBytes := fileCipher.plaintextFrameBytes ordinal
      let encodedLength := plaintextBytes + frameTagBytes
      sliceBuffer frameCapacity encodedLength
      let (encoded, source) ← reporting ((source.readExact encodedLength.toNat).orFail
        (.streamLength ("read frame " ++ toString ordinal)))
      let plaintext ← reporting ((aeadOpen prims fileCipher.aead (frameNonce ordinal) encoded
        (fileCipher.frameAAD ordinal plaintextBytes)).orFail (.authentication ("frame " ++ toString ordinal)))
      openLoop prims fileCipher frameCapacity left (ordinal + 1) source (hashed ++ encoded) (destination ++ plaintext)
        (plaintextTotal + plaintextBytes)

/-- Authenticate and decrypt exactly one complete encoded file; returns the result and what was written. -/
def Cipher.open (prims : FramePrimitives) (sha256 : List UInt8 → Digest) (fileCipher : Cipher) (source : Reader) :
    Except (Fault CryptofileError) (TransformResult × List UInt8) := do
  let encodedBytes ← reporting fileCipher.descriptor.encodedBytes
  let frameCapacity ← reporting (safeFrameCapacity fileCipher.descriptor.frameBytes frameTagBytes)
  allocate frameCapacity.toNat
  let (source, hashed, destination, plaintextBytes) ←
    openLoop prims fileCipher frameCapacity fileCipher.frameCount.toNat 0 source [] [] 0
  requireEOF source
  .ok ({ plaintextBytes, encodedBytes, encodedSHA256 := sha256 hashed }, destination)

end Skydriver.Cryptofile
