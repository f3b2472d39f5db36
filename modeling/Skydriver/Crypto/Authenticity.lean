import Skydriver.Crypto.RoundTrip

/-!
# What an accepted object proves

A session is one codec with the calls that its owner makes, in any order and with any arguments, failing ones included.
`IdealOver` is the ideal reading of AES-GCM: it opens nothing but what the sessions of a history encrypted.  Then every
frame of an accepted object was sealed at its own place, for the descriptor and length under which it is opened, because
the associated data spell out both.

Two plaintexts of one length sealed under one descriptor and key share their places; the codec cannot tell their frames
apart, and the version identity is what keeps them from meeting.
-/

namespace Skydriver

open Checked Fault FileMerkle

/-! ### Sessions -/

/-- The arguments of one call of `seal_frame`. -/
structure SealRequest where
  ordinal : UInt64
  totalPlaintextBytes : UInt64
  frame : List UInt8
deriving DecidableEq

/-- A sequence of calls on one codec: the codec afterwards and the frames that were encrypted. -/
def FrameCipher.runSeals (prims : FramePrimitives) : FrameCipher → List SealRequest → FrameCipher × List SealedFrame
  | cipher, [] => (cipher, [])
  | cipher, request :: requests =>
      let call := cipher.sealFrame prims request.ordinal request.totalPlaintextBytes request.frame
      let (final, later) := runSeals prims call.cipher requests
      (final, call.encrypted.toList ++ later)

/-- One codec and the calls that its owner makes. -/
structure SealSession where
  descriptor : EncryptionDescriptor
  directoryKey : Bytes 32
  requests : List SealRequest

def SealSession.encrypted (prims : FramePrimitives) (session : SealSession) : List SealedFrame :=
  match FrameCipher.new prims session.descriptor session.directoryKey with
  | .error _ => []
  | .ok cipher => (cipher.runSeals prims session.requests).2

/-- AES-GCM opens only what was encrypted in a session of the history, and to the plaintext of that time. -/
def IdealOver (prims : FramePrimitives) (history : List SealSession) : Prop :=
  ∀ key nonce aad frame tag plaintext, prims.decrypt key nonce aad frame tag = some plaintext →
    ∃ session ∈ history, ∃ record ∈ session.encrypted prims, record.key = key ∧ record.nonce = nonce ∧
      record.aad = aad ∧ record.ciphertext = frame ∧ record.tag = tag ∧ record.plaintext = plaintext.val

/-! ### One call -/

section Calls

variable {prims : FramePrimitives}

/-- A frame encrypted by a codec under a descriptor and file key for one place of an object. -/
structure SealedFrame.SealedAt (record : SealedFrame) (descriptor : EncryptionDescriptor) (fileKey : Bytes 32)
    (request : SealRequest) : Prop where
  key_eq : record.key = fileKey
  nonce_eq : record.nonce = Skydriver.nonce request.ordinal
  aad_eq : record.aad = frameAad descriptor request.ordinal (UInt64.ofNat request.frame.length)
    request.totalPlaintextBytes
  plaintext_eq : record.plaintext = request.frame
  inside : request.ordinal.toNat * descriptor.frameBytes.toNat < request.totalPlaintextBytes.toNat
  canonical : request.frame.length = frameLengthAt descriptor request.totalPlaintextBytes request.ordinal.toNat

/-- A call either leaves the codec alone and encrypts nothing, or encrypts its frame in its turn and moves on by one. -/
theorem sealFrame_cases (cipher : FrameCipher) (request : SealRequest) (call : SealCall)
    (hcall : cipher.sealFrame prims request.ordinal request.totalPlaintextBytes request.frame = call) :
    (call.encrypted = none ∧ call.cipher = cipher ∧ ∀ value, call.result ≠ .ok value) ∨
      ∃ record, call.encrypted = some record ∧ record.SealedAt cipher.descriptor cipher.fileKey request ∧
        request.ordinal = cipher.nextSealOrdinal ∧ cipher.nextSealOrdinal.toNat + 1 < 2 ^ 64 ∧
        call.cipher = { cipher with nextSealOrdinal := UInt64.ofNat (cipher.nextSealOrdinal.toNat + 1) } ∧
        call.result = .ok (record.ciphertext, record.tag) := by
  subst hcall
  unfold FrameCipher.sealFrame
  split_ifs with hturn
  · exact .inl ⟨rfl, rfl, fun _ hok => by cases hok⟩
  · split
    · exact .inl ⟨rfl, rfl, fun _ hok => by cases hok⟩
    · rename_i framePlaintextBytes hframe
      obtain ⟨length, hlength, hvalidated⟩ := bind_eq_ok.mp hframe
      simp only [lengthU64, bind_eq_ok, ensure_eq_ok, decide_eq_true_eq, Except.ok.injEq] at hlength
      obtain ⟨_, hsmall, rfl⟩ := hlength
      obtain ⟨hinside, hcanonical, rfl⟩ := validateFrame_eq_ok.mp hvalidated
      rw [toNat_ofNat_u64 hsmall] at hcanonical
      have hsucc := ordinal_succ_lt hinside
      dsimp only
      split
      · exact .inl ⟨rfl, rfl, fun _ hok => by cases hok⟩
      · rename_i ciphertext tag hencrypt
        rw [not_ne_iff] at hturn
        rw [hturn] at hsucc
        rw [checkedAdd, if_pos hsucc]
        exact .inr ⟨_, rfl, ⟨rfl, rfl, rfl, rfl, hinside, hcanonical⟩, hturn, hsucc, rfl, rfl⟩

theorem mem_runSeals {cipher : FrameCipher} {requests : List SealRequest} {record : SealedFrame}
    (h : record ∈ (cipher.runSeals prims requests).2) :
    ∃ request ∈ requests, record.SealedAt cipher.descriptor cipher.fileKey request := by
  induction requests generalizing cipher with
  | nil => simp [FrameCipher.runSeals] at h
  | cons request requests ih =>
      rw [FrameCipher.runSeals, List.mem_append, Option.mem_toList] at h
      rcases sealFrame_cases cipher request _ rfl with ⟨hnone, hcipher, _⟩ | ⟨first, hfirst, hsealed, _, _, hcipher, _⟩
      · rw [hnone, hcipher] at h
        obtain ⟨other, hother, hat⟩ := ih (h.resolve_left (by simp))
        exact ⟨other, List.mem_cons_of_mem _ hother, hat⟩
      · rw [hfirst, hcipher, Option.some.injEq] at h
        rcases h with rfl | h
        · exact ⟨request, List.mem_cons_self, hsealed⟩
        · obtain ⟨other, hother, hat⟩ := ih h
          exact ⟨other, List.mem_cons_of_mem _ hother, hat⟩

/-- The nonces of a run continue the count of the codec, one after the other. -/
theorem runSeals_nonces (cipher : FrameCipher) (requests : List SealRequest) :
    (cipher.runSeals prims requests).1.nextSealOrdinal.toNat =
        cipher.nextSealOrdinal.toNat + (cipher.runSeals prims requests).2.length ∧
      (cipher.runSeals prims requests).2.map SealedFrame.nonce =
        (List.range (cipher.runSeals prims requests).2.length).map fun index =>
          nonce (UInt64.ofNat (cipher.nextSealOrdinal.toNat + index)) := by
  induction requests generalizing cipher with
  | nil => simp [FrameCipher.runSeals]
  | cons request requests ih =>
      obtain ⟨call, hcall⟩ : ∃ call, cipher.sealFrame prims request.ordinal request.totalPlaintextBytes request.frame =
          call := ⟨_, rfl⟩
      rw [FrameCipher.runSeals, hcall]
      dsimp only
      obtain ⟨hnext, hnonces⟩ := ih call.cipher
      rcases sealFrame_cases cipher request call hcall with
        ⟨hnone, hcipher, _⟩ | ⟨first, hfirst, hsealed, hturn, hsucc, hcipher, _⟩
      · rw [hcipher] at hnext hnonces
        rw [hnone, hcipher]
        exact ⟨hnext, hnonces⟩
      · have hstart : call.cipher.nextSealOrdinal.toNat = cipher.nextSealOrdinal.toNat + 1 := by
          rw [hcipher]
          exact toNat_ofNat_u64 hsucc
        rw [hstart] at hnext hnonces
        rw [hfirst, Option.toList_some, List.singleton_append, List.length_cons, List.map_cons, hnonces,
          List.range_succ_eq_map, List.map_cons, List.map_map, hsealed.nonce_eq, hturn]
        refine ⟨by rw [hnext]; omega, ?_⟩
        refine congrArg₂ List.cons ?_ (List.map_congr_left fun index _ => ?_)
        · rw [Nat.add_zero, UInt64.ofNat_toNat]
        · rw [Function.comp_apply, Nat.succ_eq_add_one, Nat.add_assoc, Nat.add_comm 1 index]

theorem nonce_injective {left right : UInt64} (h : nonce left = nonce right) : left = right := by
  have hbytes := List.append_cancel_left (congrArg Subtype.val h)
  exact UInt64.toNat_inj.mp (bigEndian_injective left.toNat_lt right.toNat_lt hbytes)

theorem frameAad_injective {descriptor descriptor' : EncryptionDescriptor}
    {ordinal length total ordinal' length' total' : UInt64}
    (h : frameAad descriptor ordinal length total = frameAad descriptor' ordinal' length' total') :
    descriptor = descriptor' ∧ ordinal = ordinal' ∧ length = length' ∧ total = total' := by
  have hwidth : ∀ value : UInt64, value.toNat < 256 ^ 8 := fun value => value.toNat_lt
  obtain ⟨directoryId, versionId, keyEpoch, frameBytes⟩ := descriptor
  obtain ⟨directoryId', versionId', keyEpoch', frameBytes'⟩ := descriptor'
  have hfields := List.append_cancel_left h
  obtain ⟨rfl, hfields⟩ := Bytes.append_inj hfields
  obtain ⟨rfl, hfields⟩ := Bytes.append_inj hfields
  obtain ⟨hepoch, hfields⟩ := bigEndian_append_inj (hwidth _) (hwidth _) hfields
  obtain ⟨hframe, hfields⟩ := bigEndian_append_inj (hwidth _) (hwidth _) hfields
  obtain ⟨htotal, hfields⟩ := bigEndian_append_inj (hwidth _) (hwidth _) hfields
  obtain ⟨hordinal, hlength⟩ := bigEndian_append_inj (hwidth _) (hwidth _) hfields
  have hsame := bigEndian_injective (hwidth _) (hwidth _) hlength
  rw [UInt64.toNat_inj] at hepoch hframe htotal hordinal hsame
  subst hepoch hframe htotal hordinal hsame
  exact ⟨rfl, rfl, rfl, rfl⟩

end Calls

/-! ### Histories and accepted objects -/

section Histories

variable {prims : FramePrimitives}

theorem SealSession.mem_encrypted {session : SealSession} {record : SealedFrame}
    (h : record ∈ session.encrypted prims) :
    ∃ fileKey, deriveFileKey prims session.descriptor session.directoryKey = some fileKey ∧
      ∃ request ∈ session.requests, record.SealedAt session.descriptor fileKey request := by
  unfold SealSession.encrypted at h
  split at h
  · simp at h
  · rename_i cipher hcipher
    obtain ⟨hdescriptor, hkey, _⟩ := FrameCipher.new_eq_ok.mp hcipher
    obtain ⟨request, hrequest, hat⟩ := mem_runSeals h
    exact ⟨cipher.fileKey, hkey, request, hrequest, hdescriptor ▸ hat⟩

/-- The history holds the frame of an ordinal, sealed under the descriptor, file key and length of an object. -/
def SealedIn (prims : FramePrimitives) (history : List SealSession) (descriptor : EncryptionDescriptor)
    (fileKey : Bytes 32) (total : UInt64) (ordinal : Nat) (record : SealedFrame) : Prop :=
  ∃ session ∈ history, session.descriptor = descriptor ∧
    deriveFileKey prims session.descriptor session.directoryKey = some fileKey ∧
    record ∈ session.encrypted prims ∧ ⟨UInt64.ofNat ordinal, total, record.plaintext⟩ ∈ session.requests

theorem decryptFrame_sealedIn {history : List SealSession} (hideal : IdealOver prims history)
    {descriptor : EncryptionDescriptor} {fileKey : Bytes 32} {total : UInt64} {ordinal : Nat}
    {frame plaintext : List UInt8} {tag : Bytes 16}
    (h : decryptFrame prims descriptor fileKey total ordinal frame tag = some plaintext) :
    ∃ record, SealedIn prims history descriptor fileKey total ordinal record ∧ record.ciphertext = frame ∧
      record.tag = tag ∧ record.plaintext = plaintext := by
  obtain ⟨decrypted, hdecrypt, rfl⟩ := Option.map_eq_some_iff.mp h
  obtain ⟨session, hsession, record, hrecord, hkey, _, haad, hciphertext, htag, hplaintext⟩ := hideal _ _ _ _ _ _ hdecrypt
  obtain ⟨sessionKey, hsessionKey, request, hrequest, hat⟩ := session.mem_encrypted hrecord
  obtain ⟨hdescriptor, hordinal, _, htotal⟩ := frameAad_injective (hat.aad_eq.symm.trans haad)
  have hsame : sessionKey = fileKey := hat.key_eq.symm.trans hkey
  refine ⟨record, ⟨session, hsession, hdescriptor, hsame ▸ hsessionKey, hrecord, ?_⟩, hciphertext, htag, hplaintext⟩
  rwa [← hordinal, ← htotal, hat.plaintext_eq]

theorem openedFrames_sealedIn {history : List SealSession} (hideal : IdealOver prims history)
    {descriptor : EncryptionDescriptor} {fileKey : Bytes 32} {total : UInt64} {count ordinal : Nat}
    {encoded plaintext behind : List UInt8}
    (h : openedFrames prims descriptor fileKey total count ordinal encoded = some (plaintext, behind)) :
    ∃ records : List SealedFrame, records.length = count ∧
      encoded = (records.flatMap fun record => record.ciphertext ++ record.tag.val) ++ behind ∧
      plaintext = records.flatMap SealedFrame.plaintext ∧
      ∀ index record, records[index]? = some record →
        SealedIn prims history descriptor fileKey total (ordinal + index) record := by
  induction count generalizing ordinal encoded plaintext with
  | zero =>
      rw [openedFrames, Option.some.injEq, Prod.mk.injEq] at h
      obtain ⟨rfl, rfl⟩ := h
      exact ⟨[], rfl, by simp, rfl, by simp⟩
  | succ count ih =>
      simp only [openedFrames, Option.bind_eq_bind, Option.bind_eq_some_iff, Option.some.injEq, Prod.mk.injEq] at h
      obtain ⟨tag, htag, frame, hframe, ⟨rest, last⟩, hrest, rfl, rfl⟩ := h
      obtain ⟨first, hfirst, hciphertext, rfl, rfl⟩ := decryptFrame_sealedIn hideal hframe
      obtain ⟨records, hcount, hencoded, rfl, hplaces⟩ := ih hrest
      rw [tryInto_eq_some] at htag
      refine ⟨first :: records, by rw [List.length_cons, hcount], ?_, rfl, ?_⟩
      · rw [List.flatMap_cons, hciphertext, ← htag, List.append_assoc, ← hencoded, List.append_assoc, ← List.drop_drop,
          List.take_append_drop, List.take_append_drop]
      · intro index record hrecord
        rcases index with _ | index
        · rw [List.getElem?_cons_zero, Option.some.injEq] at hrecord
          exact hrecord ▸ hfirst
        · have hplace := hplaces index record (by simpa using hrecord)
          rwa [Nat.add_assoc, Nat.add_comm 1 index] at hplace

/-! ### Whole objects -/

/-- The calls of `seal_frame` for the frames of an object, from an ordinal on. -/
def requestsFrom (total : UInt64) : Nat → List (List UInt8) → List SealRequest
  | _, [] => []
  | ordinal, frame :: frames => ⟨UInt64.ofNat ordinal, total, frame⟩ :: requestsFrom total (ordinal + 1) frames

theorem getElem?_requestsFrom (total : UInt64) (ordinal : Nat) (frames : List (List UInt8)) (index : Nat) :
    (requestsFrom total ordinal frames)[index]? =
      frames[index]?.map fun frame => ⟨UInt64.ofNat (ordinal + index), total, frame⟩ := by
  induction frames generalizing ordinal index with
  | nil => simp [requestsFrom]
  | cons frame frames ih =>
      rcases index with _ | index
      · simp [requestsFrom]
      · simp [requestsFrom, ih, Nat.add_assoc, Nat.add_comm 1 index]

structure SealedObject where
  descriptor : EncryptionDescriptor
  directoryKey : Bytes 32
  plaintext : Slice

/-- The session in which `seal` encrypts an object. -/
def SealedObject.session (object : SealedObject) : SealSession where
  descriptor := object.descriptor
  directoryKey := object.directoryKey
  requests := requestsFrom (UInt64.ofNat object.plaintext.length) 0
    (chunks object.descriptor.frameBytes.toNat object.plaintext.bytes)

/-- The loop of `seal` writes the frames that its session encrypts. -/
theorem sealChunks_encrypted {total : UInt64} {cipher : FrameCipher} {ordinal : Nat} {frames : List (List UInt8)}
    {encoded result : List UInt8} (h : sealChunks prims total cipher ordinal frames encoded = .ok result) :
    result = encoded ++ ((cipher.runSeals prims (requestsFrom total ordinal frames)).2.flatMap fun record =>
      record.ciphertext ++ record.tag.val) := by
  induction frames generalizing cipher ordinal encoded with
  | nil =>
      rw [sealChunks, Except.ok.injEq] at h
      simp [requestsFrom, FrameCipher.runSeals, ← h]
  | cons frame frames ih =>
      rw [sealChunks] at h
      simp only [bind_eq_ok, reporting_eq_ok] at h
      obtain ⟨⟨ciphertext, tag⟩, hresult, hrest⟩ := h
      have hbehind := ih hrest
      rcases sealFrame_cases cipher ⟨UInt64.ofNat ordinal, total, frame⟩ _ rfl with
        ⟨_, _, hfailed⟩ | ⟨record, hrecord, _, _, _, _, hsealed⟩
      · exact absurd hresult (hfailed _)
      · obtain ⟨rfl, rfl⟩ := Prod.mk.inj (Except.ok.inj (hsealed.symm.trans hresult))
        rw [hbehind, requestsFrom, FrameCipher.runSeals]
        simp only [hrecord, Option.toList_some, List.singleton_append, List.flatMap_cons, List.append_assoc]

theorem expectedBlockCount_le (sizeBytes blockBytes : Nat) : expectedBlockCount sizeBytes blockBytes ≤ sizeBytes := by
  rw [expectedBlockCount]
  split_ifs with hempty
  · exact Nat.zero_le _
  · have hdiv := Nat.div_le_self (sizeBytes - 1) blockBytes
    omega

/-- A frame sealed at a place of some object of a history is the chunk of that object at that place. -/
theorem SealedIn.object {objects : List SealedObject} {descriptor : EncryptionDescriptor} {fileKey : Bytes 32}
    {total : UInt64} {ordinal : Nat} {record : SealedFrame} (hvalid : validateDescriptor descriptor = .ok ())
    (hordinal : ordinal < 2 ^ 64)
    (h : SealedIn prims (objects.map SealedObject.session) descriptor fileKey total ordinal record) :
    ∃ object ∈ objects, object.descriptor = descriptor ∧
      deriveFileKey prims descriptor object.directoryKey = some fileKey ∧ object.plaintext.length = total.toNat ∧
      (chunks descriptor.frameBytes.toNat object.plaintext.bytes)[ordinal]? = some record.plaintext := by
  obtain ⟨session, hsession, hdescriptor, hkey, _, hrequest⟩ := h
  obtain ⟨object, hobject, rfl⟩ := List.mem_map.mp hsession
  change object.descriptor = descriptor at hdescriptor
  obtain ⟨index, hindex⟩ := List.mem_iff_getElem?.mp hrequest
  rw [SealedObject.session, getElem?_requestsFrom, Option.map_eq_some_iff] at hindex
  obtain ⟨frame, hframe, hplace⟩ := hindex
  rw [SealRequest.mk.injEq, Nat.zero_add] at hplace
  obtain ⟨hplace, htotal, rfl⟩ := hplace
  have hlength : object.plaintext.length = total.toNat := by
    rw [← htotal, toNat_ofNat_u64 object.plaintext.length_lt]
  have hcount := chunks_length (frameBytes_pos hvalid) object.plaintext.bytes
  have hle := expectedBlockCount_le object.plaintext.bytes.length descriptor.frameBytes.toNat
  have hshort := object.plaintext.length_lt
  rw [Slice.length] at hshort
  rw [hdescriptor] at hframe
  obtain ⟨hinside, _⟩ := List.getElem?_eq_some_iff.mp hframe
  have hsame : index = ordinal := by
    have hnat := congrArg UInt64.toNat hplace
    rwa [toNat_ofNat_u64 (by omega), toNat_ofNat_u64 hordinal] at hnat
  exact ⟨object, hobject, hdescriptor, hdescriptor ▸ hkey, hlength, hsame ▸ hframe⟩

/-- At most one plaintext of each length is sealed under one descriptor and file key. -/
def SealedOnce (prims : FramePrimitives) (objects : List SealedObject) : Prop :=
  ∀ left ∈ objects, ∀ right ∈ objects, left.descriptor = right.descriptor →
    deriveFileKey prims left.descriptor left.directoryKey = deriveFileKey prims right.descriptor right.directoryKey →
    left.plaintext.length = right.plaintext.length → left.plaintext = right.plaintext

/-- Frames that all belong to objects of a history with one plaintext for each place make up that plaintext. -/
theorem plaintext_of_places {objects : List SealedObject} (honce : SealedOnce prims objects)
    {descriptor : EncryptionDescriptor} (hvalid : validateDescriptor descriptor = .ok ()) {fileKey : Bytes 32}
    {total : UInt64} {records : List SealedFrame} (hcount : records.length = framesBehind descriptor total 0)
    (hplaces : ∀ index record, records[index]? = some record →
      SealedIn prims (objects.map SealedObject.session) descriptor fileKey total (0 + index) record)
    (hnonempty : records ≠ []) :
    ∃ object ∈ objects, object.descriptor = descriptor ∧
      deriveFileKey prims descriptor object.directoryKey = some fileKey ∧ object.plaintext.length = total.toNat ∧
      object.plaintext.bytes = records.flatMap SealedFrame.plaintext := by
  have hpos := frameBytes_pos hvalid
  have htotal := total.toNat_lt
  have hbound : records.length ≤ total.toNat := by
    rw [hcount, framesBehind, Nat.zero_mul, Nat.sub_zero]
    exact expectedBlockCount_le _ _
  have hobjects : ∀ (index : Nat) (record : SealedFrame), records[index]? = some record → ∃ object ∈ objects,
      object.descriptor = descriptor ∧ deriveFileKey prims descriptor object.directoryKey = some fileKey ∧
      object.plaintext.length = total.toNat ∧
      (chunks descriptor.frameBytes.toNat object.plaintext.bytes)[index]? = some record.plaintext := by
    intro index record hrecord
    obtain ⟨hinside, _⟩ := List.getElem?_eq_some_iff.mp hrecord
    have hplace := hplaces index record hrecord
    rw [Nat.zero_add] at hplace
    exact hplace.object hvalid (by omega)
  obtain ⟨object, hobject, hdescriptor, hkey, hlength, _⟩ :=
    hobjects 0 (records.head hnonempty) (by rw [← List.head?_eq_getElem?, List.head?_eq_some_head])
  refine ⟨object, hobject, hdescriptor, hkey, hlength, ?_⟩
  have hchunks : chunks descriptor.frameBytes.toNat object.plaintext.bytes = records.map SealedFrame.plaintext := by
    refine List.ext_getElem? fun index => ?_
    rcases hrecord : records[index]? with _ | record
    · have hlengths : (chunks descriptor.frameBytes.toNat object.plaintext.bytes).length = records.length := by
        rw [chunks_length hpos, hcount, framesBehind, Nat.zero_mul, Nat.sub_zero, ← hlength, Slice.length]
      rw [List.getElem?_map, hrecord, Option.map_none, List.getElem?_eq_none_iff, hlengths,
        ← List.getElem?_eq_none_iff]
      exact hrecord
    · obtain ⟨other, hother, hotherDescriptor, hotherKey, hotherLength, hframe⟩ := hobjects index record hrecord
      have hsame := honce object hobject other hother (hdescriptor.trans hotherDescriptor.symm)
        (by rw [hdescriptor, hotherDescriptor, hkey, hotherKey]) (hlength.trans hotherLength.symm)
      rw [hsame, hframe, List.getElem?_map, hrecord, Option.map_some]
  rw [← chunks_flatten hpos object.plaintext.bytes, hchunks, List.flatMap_def]

end Histories

/-! ### The guarantee -/

/-- The object is the row of the frames that the history sealed at its ordinals. -/
def MadeOfSealedFrames (prims : FramePrimitives) (history : List SealSession) (encoded : Slice) (total : UInt64)
    (descriptor : EncryptionDescriptor) (directoryKey : Bytes 32) (plaintext : Slice) : Prop :=
  ∃ (fileKey : Bytes 32) (records : List SealedFrame), deriveFileKey prims descriptor directoryKey = some fileKey ∧
    records.length = framesBehind descriptor total 0 ∧
    encoded.bytes = (records.flatMap fun record => record.ciphertext ++ record.tag.val) ∧
    plaintext.bytes = records.flatMap SealedFrame.plaintext ∧
    ∀ (ordinal : Nat) (record : SealedFrame), records[ordinal]? = some record →
      SealedIn prims history descriptor fileKey total ordinal record

theorem openObject_madeOfSealedFrames {prims : FramePrimitives} {history : List SealSession}
    (hideal : IdealOver prims history) {encoded plaintext : Slice} {total : UInt64} {descriptor : EncryptionDescriptor}
    {directoryKey : Bytes 32} (hopen : openObject prims encoded total descriptor directoryKey = .ok plaintext) :
    MadeOfSealedFrames prims history encoded total descriptor directoryKey plaintext := by
  obtain ⟨_, fileKey, hkey, hopened⟩ := openObject_eq_ok.mp hopen
  obtain ⟨records, hcount, hencoded, hplaintext, hplaces⟩ := openedFrames_sealedIn hideal hopened
  rw [List.append_nil] at hencoded
  refine ⟨fileKey, records, hkey, hcount, hencoded, hplaintext, fun ordinal record hrecord => ?_⟩
  simpa using hplaces ordinal record hrecord

theorem runSeals_nonces_nodup {prims : FramePrimitives} {descriptor : EncryptionDescriptor} {directoryKey : Bytes 32}
    {cipher : FrameCipher} (hcipher : FrameCipher.new prims descriptor directoryKey = .ok cipher)
    (requests : List SealRequest) :
    (cipher.runSeals prims requests).2.map SealedFrame.nonce =
        (List.range (cipher.runSeals prims requests).2.length).map (fun ordinal => nonce (UInt64.ofNat ordinal)) ∧
      ((cipher.runSeals prims requests).2.map SealedFrame.nonce).Nodup := by
  obtain ⟨_, _, hzero⟩ := FrameCipher.new_eq_ok.mp hcipher
  obtain ⟨hnext, hnonces⟩ := @runSeals_nonces prims cipher requests
  have hbound := (cipher.runSeals prims requests).1.nextSealOrdinal.toNat_lt
  simp only [hzero, UInt64.toNat_zero, Nat.zero_add] at hnext hnonces
  refine ⟨hnonces, ?_⟩
  rw [hnonces]
  refine List.Nodup.map_on (fun left hleft right hright hsame => ?_) List.nodup_range
  rw [List.mem_range] at hleft hright
  have hordinal := congrArg UInt64.toNat (nonce_injective hsame)
  rwa [toNat_ofNat_u64 (by omega), toNat_ofNat_u64 (by omega)] at hordinal

/-- What the frame codec guarantees about nonces and about accepted objects. -/
structure FrameAuthenticity (prims : FramePrimitives) : Prop where
  /-- A codec uses the nonces of the ordinals 0, 1, 2, ... and none of them twice. -/
  nonces : ∀ descriptor directoryKey cipher, FrameCipher.new prims descriptor directoryKey = .ok cipher →
    ∀ requests, (cipher.runSeals prims requests).2.map SealedFrame.nonce =
        (List.range (cipher.runSeals prims requests).2.length).map (fun ordinal => nonce (UInt64.ofNat ordinal)) ∧
      ((cipher.runSeals prims requests).2.map SealedFrame.nonce).Nodup
  /-- Each frame of an accepted object was sealed at its own ordinal for the same descriptor, file key and length. -/
  frames : ∀ history, IdealOver prims history → ∀ encoded total descriptor directoryKey plaintext,
    openObject prims encoded total descriptor directoryKey = .ok plaintext →
    MadeOfSealedFrames prims history encoded total descriptor directoryKey plaintext
  /-- What `seal` returns is what its session encrypted. -/
  sealed : ∀ (object : SealedObject) (encoded : Slice),
    sealObject prims object.plaintext object.descriptor object.directoryKey = .ok encoded →
    encoded.bytes = (object.session.encrypted prims).flatMap fun record => record.ciphertext ++ record.tag.val
  /-- With one plaintext for each descriptor, file key and length, an accepted object is that plaintext; only the empty
  object, which has no frame, is accepted without having been sealed. -/
  objects : ∀ objects, SealedOnce prims objects → IdealOver prims (objects.map SealedObject.session) →
    ∀ encoded total descriptor directoryKey plaintext,
    openObject prims encoded total descriptor directoryKey = .ok plaintext →
    (∃ object ∈ objects, object.descriptor = descriptor ∧
      deriveFileKey prims descriptor object.directoryKey = deriveFileKey prims descriptor directoryKey ∧
      object.plaintext.length = total.toNat ∧ plaintext = object.plaintext) ∨
    (total = 0 ∧ encoded.bytes = [] ∧ plaintext.bytes = [])

theorem frameAuthenticity (prims : FramePrimitives) : FrameAuthenticity prims := by
  refine ⟨fun descriptor directoryKey cipher hcipher requests => runSeals_nonces_nodup hcipher requests,
    fun history hideal encoded total descriptor directoryKey plaintext hopen =>
      openObject_madeOfSealedFrames hideal hopen, fun object encoded hseal => ?_,
    fun objects honce hideal encoded total descriptor directoryKey plaintext hopen => ?_⟩
  · rw [sealObject] at hseal
    simp only [bind_eq_ok, reporting_eq_ok, collect_eq_ok] at hseal
    obtain ⟨_, _, cipher, hcipher, _, _, bytes, hbytes, rfl⟩ := hseal
    rw [sealChunks_encrypted hbytes, List.nil_append, SealSession.encrypted]
    simp only [SealedObject.session, hcipher]
  · obtain ⟨hvalid, _⟩ := openObject_eq_ok.mp hopen
    obtain ⟨fileKey, records, hkey, hcount, hencoded, hplaintext, hplaces⟩ :=
      openObject_madeOfSealedFrames hideal hopen
    by_cases hempty : records = []
    · right
      subst hempty
      have hzero := framesBehind_eq_zero hvalid hcount
      rw [Nat.zero_mul, Nat.sub_zero] at hzero
      exact ⟨UInt64.toNat_inj.mp hzero, hencoded, hplaintext⟩
    · left
      obtain ⟨object, hobject, hdescriptor, hobjectKey, hlength, hbytes⟩ := plaintext_of_places honce hvalid hcount
        (fun index record hrecord => by simpa using hplaces index record hrecord) hempty
      exact ⟨object, hobject, hdescriptor, hobjectKey.trans hkey.symm, hlength,
        Slice.ext (hplaintext.trans hbytes.symm)⟩

/-! Two payloads of one length sealed under one descriptor, as recorded. -/

namespace Recorded

/-- The second payload of the same length, sealed under the same descriptor. -/
def rival : List SealedFrame :=
  [frame 4 0 7 [80, 65, 89, 76] [127, 165, 52, 188]
     ⟨[84, 166, 76, 108, 42, 116, 253, 137, 27, 32, 169, 37, 22, 217, 31, 169], by decide⟩,
   frame 4 1 7 [79, 65, 68] [7, 178, 211]
     ⟨[223, 170, 95, 1, 87, 125, 133, 91, 32, 237, 100, 19, 54, 87, 18, 98], by decide⟩]

def object (first second : List UInt8) (h : (first ++ second).length ≤ maximumAllocation) : SealedObject where
  descriptor := descriptor 4
  directoryKey := directoryKey
  plaintext := ⟨first ++ second, h⟩

def lower : SealedObject := object [112, 97, 121, 108] [111, 97, 100] (by decide)

def upper : SealedObject := object [80, 65, 89, 76] [79, 65, 68] (by decide)

theorem chunks_payload {first second : List UInt8} (hfirst : first.length = 4) (hpos : second ≠ [])
    (hsecond : second.length ≤ 4) : chunks 4 (first ++ second) = [first, second] := by
  have hmore : first ++ second ≠ [] := by simp [hpos]
  rw [chunks_cons (by decide) hmore, List.take_left' hfirst, List.drop_left' hfirst, chunks_cons (by decide) hpos,
    List.take_of_length_le hsecond, List.drop_of_length_le hsecond, chunks_nil]

theorem lower_session : lower.session =
    ⟨descriptor 4, directoryKey, [⟨0, 7, [112, 97, 121, 108]⟩, ⟨1, 7, [111, 97, 100]⟩]⟩ := by
  change SealSession.mk _ _ (requestsFrom 7 0 (chunks 4 ([112, 97, 121, 108] ++ [111, 97, 100]))) = _
  rw [chunks_payload rfl (by decide) (by decide)]
  rfl

theorem upper_session : upper.session =
    ⟨descriptor 4, directoryKey, [⟨0, 7, [80, 65, 89, 76]⟩, ⟨1, 7, [79, 65, 68]⟩]⟩ := by
  change SealSession.mk _ _ (requestsFrom 7 0 (chunks 4 ([80, 65, 89, 76] ++ [79, 65, 68]))) = _
  rw [chunks_payload rfl (by decide) (by decide)]
  rfl

end Recorded

/-- Replayed primitives are ideal over a history that encrypted every record. -/
theorem replay_ideal {salt directoryKey fileKey : Bytes 32} {records : List SealedFrame} {history : List SealSession}
    (h : ∀ record ∈ records, ∃ session ∈ history,
      record ∈ session.encrypted (replay salt directoryKey fileKey records)) :
    IdealOver (replay salt directoryKey fileKey records) history := by
  intro key nonce aad frame tag plaintext hdecrypt
  simp only [replay, Option.bind_eq_bind, Option.bind_eq_some_iff, tryInto_eq_some] at hdecrypt
  obtain ⟨record, hfind, hplaintext⟩ := hdecrypt
  have hmatch := List.find?_some hfind
  simp only [SealedFrame.answersDecrypt, decide_eq_true_eq] at hmatch
  obtain ⟨hkey, hnonce, haad, hciphertext, htag⟩ := hmatch
  obtain ⟨session, hsession, hrecord⟩ := h record (List.mem_of_find?_eq_some hfind)
  exact ⟨session, hsession, record, hrecord, hkey, hnonce, haad, hciphertext, htag, hplaintext⟩

open Recorded in
/-- The recorded payload is accepted as what was sealed. -/
theorem frameAuthenticity_payload :
    openObject (replay salt directoryKey fileKey payload)
        ⟨[95, 133, 20, 156, 42, 11, 82, 56, 202, 97, 117, 9, 133, 136, 39, 58, 32, 196, 234, 151, 39, 146, 243, 62, 91, 219,
          30, 151, 135, 221, 36, 107, 55, 50, 237, 227, 30, 174, 148], by decide⟩ 7 (descriptor 4) directoryKey =
        .ok lower.plaintext ∧
      ∃ object ∈ [lower], lower.plaintext = object.plaintext := by
  have hopen : openObject (replay salt directoryKey fileKey payload)
      ⟨[95, 133, 20, 156, 42, 11, 82, 56, 202, 97, 117, 9, 133, 136, 39, 58, 32, 196, 234, 151, 39, 146, 243, 62, 91, 219,
        30, 151, 135, 221, 36, 107, 55, 50, 237, 227, 30, 174, 148], by decide⟩ 7 (descriptor 4) directoryKey =
      .ok lower.plaintext := by decide +kernel
  have hideal : IdealOver (replay salt directoryKey fileKey payload) ([lower].map SealedObject.session) := by
    refine replay_ideal fun record hrecord => ⟨lower.session, List.mem_singleton.mpr rfl, ?_⟩
    have hencrypted : lower.session.encrypted (replay salt directoryKey fileKey payload) = payload := by
      rw [lower_session]
      decide +kernel
    rwa [hencrypted]
  have honce : SealedOnce (replay salt directoryKey fileKey payload) [lower] := by
    intro left hleft right hright _ _ _
    rw [List.mem_singleton.mp hleft, List.mem_singleton.mp hright]
  rcases (frameAuthenticity (replay salt directoryKey fileKey payload)).objects [lower] honce hideal _ _ _ _ _ hopen with
    ⟨object, hobject, _, _, _, hsame⟩ | ⟨hzero, _⟩
  · exact ⟨hopen, object, hobject, hsame⟩
  · exact absurd hzero (by decide)

open Recorded in
/-- Two plaintexts of one length under one descriptor and key can be spliced, and the empty object opens without ever
having been sealed. -/
theorem frameAuthenticity_spliced :
    let prims := replay salt directoryKey fileKey (payload ++ rival)
    let objects := [lower, upper]
    let spliced : Slice := ⟨[112, 97, 121, 108, 79, 65, 68], by decide⟩
    IdealOver prims (objects.map SealedObject.session) ∧
      (∀ object ∈ objects, object.descriptor = descriptor 4 ∧ object.directoryKey = directoryKey ∧
        object.plaintext.length = 7) ∧
      openObject prims
          ⟨[95, 133, 20, 156, 42, 11, 82, 56, 202, 97, 117, 9, 133, 136, 39, 58, 32, 196, 234, 151, 7, 178, 211, 223, 170,
            95, 1, 87, 125, 133, 91, 32, 237, 100, 19, 54, 87, 18, 98], by decide⟩ 7 (descriptor 4) directoryKey =
        .ok spliced ∧
      (∀ object ∈ objects, object.plaintext ≠ spliced) ∧
      openObject prims ⟨[], by decide⟩ 0 (descriptor 4) directoryKey = .ok ⟨[], by decide⟩ ∧
      ∀ object ∈ objects, object.plaintext.length ≠ 0 := by
  have hideal : IdealOver (replay salt directoryKey fileKey (payload ++ rival))
      ([lower, upper].map SealedObject.session) := by
    refine replay_ideal fun record hrecord => ?_
    rcases List.mem_append.mp hrecord with hlower | hupper
    · have hencrypted : lower.session.encrypted (replay salt directoryKey fileKey (payload ++ rival)) = payload := by
        rw [lower_session]
        decide +kernel
      exact ⟨lower.session, by simp, by rwa [hencrypted]⟩
    · have hencrypted : upper.session.encrypted (replay salt directoryKey fileKey (payload ++ rival)) = rival := by
        rw [upper_session]
        decide +kernel
      exact ⟨upper.session, by simp, by rwa [hencrypted]⟩
  exact ⟨hideal, by decide +kernel, by decide +kernel, by decide +kernel, by decide +kernel, by decide +kernel⟩

end Skydriver
