import Skydriver.Crypto.Layout

/-!
# Sealed records of the metadata cache

One cache value is sealed under a key of its token with its logical context as associated data: a fixed prefix, the
nonce, the ciphertext and the tag.  Opening takes the record apart again, bounded by the caller.  AES-GCM is the same
outside primitive as under the frame codec.
-/

namespace Skydriver

open Checked

namespace MetadataCache

def recordPrefix : List UInt8 := utf8 "skydriver.metadata-cache.v1" ++ [0]
def aadDomain : List UInt8 := utf8 "skydriver.metadata-cache-record.v1" ++ [0]
def nonceBytes : Nat := 12
def tagBytes : Nat := 16
def maximumContextBytes : Nat := 4 * 1024

/-- A failure of the cache codec. -/
inductive Error where
  | invalidInput (message : String)
  | authentication
deriving DecidableEq

/-- `Display` of a failure. -/
def Error.display : Error → String
  | .invalidInput message => "invalid metadata cache record: " ++ message
  | .authentication => "metadata cache authentication failed"

/-- The associated data of a record: its context behind the length of the context. -/
def recordAad (context : Text) : Except Error (List UInt8) := do
  ensure (.invalidInput "context is invalid") (!(context.isEmpty || context.length > maximumContextBytes))
  ensure (.invalidInput "context length overflows") (context.length < 2 ^ 32)
  .ok (aadDomain ++ bigEndian 4 context.length ++ context)

/-- The bytes of a record around its ciphertext. -/
def overhead : Nat := recordPrefix.length + nonceBytes + tagBytes

/-- Addition that stays at the largest `usize`. -/
def saturatingAdd (left right : Nat) : Nat := min (left + right) (2 ^ 64 - 1)

def maximumEncodedBytes (maximumPlaintextBytes : Nat) : Nat := saturatingAdd maximumPlaintextBytes overhead

/-- The nonce, the ciphertext and the tag of a record. -/
def splitRecord (encoded : List UInt8) : List UInt8 × List UInt8 × List UInt8 :=
  let behind := encoded.drop recordPrefix.length
  let sealed := behind.drop nonceBytes
  (behind.take nonceBytes, sealed.take (sealed.length - tagBytes), sealed.drop (sealed.length - tagBytes))

def decryptedInPlace (prims : FramePrimitives) (key : Bytes 32) (nonce : Bytes 12) (aad ciphertext : List UInt8)
    (tag : Bytes 16) : Option (List UInt8) :=
  (prims.decrypt key nonce aad ciphertext tag).map Subtype.val

/-- A cache codec under the key of one token. -/
structure MetadataCacheCipher where
  key : Bytes 32
deriving DecidableEq

namespace MetadataCacheCipher

variable (prims : FramePrimitives) (cipher : MetadataCacheCipher)

/-- Seal one cache value and authenticate its logical context. -/
def sealRecord (context : Text) (nonce : Bytes 12) (plaintext : List UInt8) : Except Error (List UInt8) := do
  let aad ← recordAad context
  let (ciphertext, tag) ← (prims.encrypt cipher.key nonce aad plaintext).orFail .authentication
  ensure (.invalidInput "record length overflows") (overhead + ciphertext.val.length < 2 ^ 64)
  .ok (recordPrefix ++ nonce.val ++ ciphertext.val ++ tag.val)

/-- Authenticate and open one exact bounded cache value. -/
def openRecord (context : Text) (encoded : List UInt8) (maximumPlaintextBytes : Nat) :
    Except Error (List UInt8) := do
  let aad ← recordAad context
  ensure (.invalidInput "record layout is invalid")
    (!(encoded.length < overhead || encoded.length > saturatingAdd maximumPlaintextBytes overhead ||
      !recordPrefix.isPrefixOf encoded))
  let (nonce, ciphertext, tag) := splitRecord encoded
  let nonce ← (tryInto 12 nonce).orFail (.invalidInput "record layout is invalid")
  let tag ← (tryInto 16 tag).orFail (.invalidInput "record layout is invalid")
  (decryptedInPlace prims cipher.key nonce aad ciphertext tag).orFail .authentication

end MetadataCacheCipher

theorem tryInto_val {width : Nat} (bytes : Bytes width) : tryInto width bytes.val = some bytes := by
  rw [tryInto, dif_pos bytes.length_val]
  rfl

theorem splitRecord_append {nonce ciphertext tag : List UInt8} (hnonce : nonce.length = nonceBytes)
    (htag : tag.length = tagBytes) :
    splitRecord (recordPrefix ++ nonce ++ ciphertext ++ tag) = (nonce, ciphertext, tag) := by
  have hlayout : recordPrefix ++ nonce ++ ciphertext ++ tag = recordPrefix ++ (nonce ++ (ciphertext ++ tag)) := by simp
  have hlength : (ciphertext ++ tag).length - tagBytes = ciphertext.length := by
    rw [List.length_append, htag, Nat.add_sub_cancel]
  simp only [splitRecord, hlayout, List.drop_left, List.take_left' hnonce, List.drop_left' hnonce, hlength,
    List.take_left]

theorem sealRecord_length {prims : FramePrimitives} {cipher : MetadataCacheCipher} {context : Text} {nonce : Bytes 12}
    {plaintext sealed : List UInt8} (h : cipher.sealRecord prims context nonce plaintext = .ok sealed) :
    sealed.length = plaintext.length + overhead := by
  simp only [MetadataCacheCipher.sealRecord, bind_eq_ok, orFail_eq_ok, ensure_eq_ok, Except.ok.injEq] at h
  obtain ⟨aad, _, ⟨ciphertext, tag⟩, _, _, _, rfl⟩ := h
  simp only [List.length_append, Bytes.length_val, overhead, nonceBytes, tagBytes]
  omega

/-- Opening gives back what was sealed under the same context, within the bound of the reader. -/
theorem openRecord_sealRecord {prims : FramePrimitives} (hdecrypts : prims.Decrypts) {cipher : MetadataCacheCipher}
    {context : Text} {nonce : Bytes 12} {plaintext sealed : List UInt8} {maximum : Nat}
    (h : cipher.sealRecord prims context nonce plaintext = .ok sealed) (hmaximum : plaintext.length ≤ maximum) :
    cipher.openRecord prims context sealed maximum = .ok plaintext := by
  have hlength := sealRecord_length h
  simp only [MetadataCacheCipher.sealRecord, bind_eq_ok, orFail_eq_ok, ensure_eq_ok, decide_eq_true_eq,
    Except.ok.injEq] at h
  obtain ⟨aad, haad, ⟨ciphertext, tag⟩, hencrypt, _, hbound, hsealed⟩ := h
  have hdecrypted : decryptedInPlace prims cipher.key nonce aad ciphertext.val tag = some plaintext :=
    hdecrypts _ _ _ _ _ _ hencrypt
  have hleading : recordPrefix.isPrefixOf sealed = true := by
    rw [List.isPrefixOf_iff_prefix, ← hsealed, List.append_assoc, List.append_assoc]
    exact List.prefix_append _ _
  have hbounds : (sealed.length < overhead || sealed.length > saturatingAdd maximum overhead) = false := by
    rw [ciphertext.length_val] at hbound
    simp only [hlength, saturatingAdd, Bool.or_eq_false_iff, decide_eq_false_iff_not]
    omega
  rw [MetadataCacheCipher.openRecord, haad, ok_bind, ensure_bind_eq_ok, hleading, hbounds]
  refine ⟨rfl, ?_⟩
  rw [← hsealed, splitRecord_append nonce.length_val tag.length_val]
  simp only [tryInto_val, some_orFail, ok_bind, hdecrypted]

end MetadataCache

end Skydriver
