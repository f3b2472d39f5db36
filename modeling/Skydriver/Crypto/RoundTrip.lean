import Skydriver.Crypto.Layout
import Skydriver.Crypto.Stream

/-!
# Three implementations of one layout

The in-memory codec, the streaming client and the length formula of the control plane agree, and opening what was
sealed gives back the plaintext.  The client allocates its frame buffer before it reads anything, so it works only for
frames that fit one block of memory; the in-memory codec has no such bound.
-/

namespace Skydriver

open Checked Fault FileMerkle PutCommit

/-! ### The streaming client follows the layout -/

namespace Client

section Stream

variable {descriptor : Descriptor} {fileKey : Bytes 32}
  (hvalid : validateDescriptor (coreDescriptor descriptor) = .ok ())

theorem frameCount_eq_framesBehind (descriptor : Descriptor) :
    frameCount descriptor = framesBehind (coreDescriptor descriptor) descriptor.plaintextBytes 0 := by
  simp [frameCount, framesBehind, expectedBlockCount, coreDescriptor, ← UInt64.toNat_inj]

theorem readFrame {ordinal : Nat} {input : Reader}
    (hinput : input.data.length = descriptor.plaintextBytes.toNat - ordinal * descriptor.frameBytes.toNat) :
    ∃ rest, input.readExact (frameLength descriptor ordinal) =
        some (input.data.take descriptor.frameBytes.toNat, rest) ∧
      rest.data = input.data.drop descriptor.frameBytes.toNat := by
  have hlength : frameLength descriptor ordinal = min descriptor.frameBytes.toNat input.data.length := by
    rw [frameLength, hinput]
  obtain ⟨rest, hread, hrest⟩ := Reader.readExact_of_le
    (show frameLength descriptor ordinal ≤ input.data.length by omega)
  refine ⟨rest, ?_, ?_⟩
  · rw [hread, hlength, ← List.take_eq_take_min]
  · rw [hrest, hlength, ← List.drop_eq_drop_min]

include hvalid in
/-- `seal_frames` over a source that holds the rest of the plaintext: the same bytes as the layout, whatever the sizes
of the pieces that the source delivers. -/
theorem sealLoop_eq (prims : FramePrimitives) {cipher : FrameCipher} {ordinal left : Nat} {input : Reader}
    (hcipher : cipher.StandsAt (coreDescriptor descriptor) fileKey ordinal)
    (hleft : left = framesBehind (coreDescriptor descriptor) descriptor.plaintextBytes ordinal)
    (hinput : input.data.length = descriptor.plaintextBytes.toNat - ordinal * descriptor.frameBytes.toNat)
    (output : List UInt8) (encodedBytes : UInt64) :
    (∀ encoded, encodedFrames prims (coreDescriptor descriptor) fileKey descriptor.plaintextBytes ordinal
        (chunks descriptor.frameBytes.toNat input.data) = some encoded →
      ∃ rest, sealLoop prims descriptor left ordinal cipher input output encodedBytes =
        .ok (rest, output ++ encoded, encodedBytes + UInt64.ofNat encoded.length) ∧ rest.data = []) ∧
    (encodedFrames prims (coreDescriptor descriptor) fileKey descriptor.plaintextBytes ordinal
        (chunks descriptor.frameBytes.toNat input.data) = none →
      ∃ fault, sealLoop prims descriptor left ordinal cipher input output encodedBytes = .error fault) := by
  have hpos : 0 < descriptor.frameBytes.toNat := frameBytes_pos hvalid
  induction left generalizing cipher ordinal input output encodedBytes with
  | zero =>
      have hempty : input.data = [] := by
        rw [← List.length_eq_zero_iff, hinput]
        exact framesBehind_eq_zero hvalid hleft
      rw [hempty, chunks_nil, encodedFrames]
      refine ⟨fun encoded hencoded => ⟨input, ?_, hempty⟩, fun hnone => by cases hnone⟩
      rw [← Option.some.inj hencoded]
      simp [sealLoop]
  | succ left ih =>
      obtain ⟨hordinal, hnext⟩ := framesBehind_eq_succ hvalid hleft
      change ordinal * descriptor.frameBytes.toNat < descriptor.plaintextBytes.toNat at hordinal
      have hmore : input.data ≠ [] := by
        rw [← List.length_pos_iff, hinput]
        omega
      obtain ⟨rest, hread, hrest⟩ := readFrame hinput
      have hframe : (input.data.take descriptor.frameBytes.toNat).length =
          frameLengthAt (coreDescriptor descriptor) descriptor.plaintextBytes ordinal := by
        rw [List.length_take, hinput]
        rfl
      have hlength : frameLength descriptor ordinal = (input.data.take descriptor.frameBytes.toNat).length := hframe.symm
      have hbehind : rest.data.length =
          descriptor.plaintextBytes.toNat - (ordinal + 1) * descriptor.frameBytes.toNat := by
        rw [hrest, List.length_drop, hinput]
        exact (remaining_succ (coreDescriptor descriptor) descriptor.plaintextBytes ordinal).symm
      obtain ⟨hresult, hstands⟩ := sealFrame_canonical prims hcipher hordinal hframe
      rw [chunks_cons hpos hmore, encodedFrames, sealLoop, hread]
      simp only [some_orFail, reporting_ok, ok_bind, hresult]
      rcases hencrypt : encryptFrame prims (coreDescriptor descriptor) fileKey descriptor.plaintextBytes ordinal
        (input.data.take descriptor.frameBytes.toNat) with _ | ⟨ciphertext, tag⟩
      · refine ⟨?_, fun _ => ⟨_, rfl⟩⟩
        intro encoded hsome
        cases hsome
      · have hciphertext := encryptFrame_length hencrypt
        obtain ⟨hsome, hnone⟩ := ih (hstands (by rw [hencrypt]; rfl)) hnext hbehind (output ++ ciphertext ++ tag.val)
          (encodedBytes + (UInt64.ofNat (frameLength descriptor ordinal) + 16))
        rw [hrest] at hsome hnone
        simp only [some_orFail, describe, ok_bind, Option.bind_eq_bind, Option.bind_some, Option.bind_eq_some_iff,
          Option.bind_eq_none_iff, Option.some.injEq]
        constructor
        · rintro encoded ⟨behind, hencoded, rfl⟩
          obtain ⟨last, hloop, hlast⟩ := hsome behind hencoded
          refine ⟨last, ?_, hlast⟩
          rw [hloop, hlength, ← hciphertext]
          simp only [List.append_assoc, List.length_append, Bytes.length_val, UInt64.ofNat_add, UInt64.add_assoc]
          rfl
        · intro hbroken
          apply hnone
          rw [Option.eq_none_iff_forall_ne_some]
          intro behind hencoded
          exact absurd (hbroken behind hencoded) (by simp)

include hvalid in
/-- `open_frames` accepts what the layout accepts, whatever the sizes of the pieces that the source delivers. -/
theorem openLoop_eq (prims : FramePrimitives) {cipher : FrameCipher} (hdescriptor : cipher.descriptor = coreDescriptor descriptor)
    (hkey : cipher.fileKey = fileKey) {ordinal left : Nat} (input : Reader)
    (hleft : left = framesBehind (coreDescriptor descriptor) descriptor.plaintextBytes ordinal)
    (output : List UInt8) :
    (∀ plaintext behind, openedFrames prims (coreDescriptor descriptor) fileKey descriptor.plaintextBytes left ordinal
        input.data = some (plaintext, behind) →
      ∃ rest, openLoop prims descriptor cipher left ordinal input output = .ok (rest, output ++ plaintext) ∧
        rest.data = behind) ∧
    (openedFrames prims (coreDescriptor descriptor) fileKey descriptor.plaintextBytes left ordinal input.data = none →
      ∃ fault, openLoop prims descriptor cipher left ordinal input output = .error fault) := by
  induction left generalizing ordinal input output with
  | zero =>
      rw [openedFrames]
      refine ⟨fun plaintext behind hopened => ⟨input, ?_, ?_⟩, fun hnone => by cases hnone⟩
      · rw [← (Prod.mk.inj (Option.some.inj hopened)).1]
        simp [openLoop]
      · exact (Prod.mk.inj (Option.some.inj hopened)).2
  | succ left ih =>
      obtain ⟨hordinal, hnext⟩ := framesBehind_eq_succ hvalid hleft
      obtain ⟨length, hlength⟩ : ∃ length,
          length = frameLengthAt (coreDescriptor descriptor) descriptor.plaintextBytes ordinal := ⟨_, rfl⟩
      have hsame : frameLength descriptor ordinal = length := hlength.symm
      rw [openedFrames, openLoop]
      dsimp only
      rw [hsame, ← hlength]
      by_cases henough : length + 16 ≤ input.data.length
      · obtain ⟨rest, hread, hrest⟩ := Reader.readExact_of_le henough
        have hfront : (input.data.take (length + 16)).take length = input.data.take length := by
          rw [List.take_take, Nat.min_eq_left (by omega)]
        have hback : (input.data.take (length + 16)).drop length = (input.data.drop length).take 16 := by
          rw [List.drop_take, Nat.add_sub_cancel_left]
        obtain ⟨tag, htag⟩ : ∃ tag : Bytes 16, (input.data.drop length).take 16 = tag.val := by
          refine ⟨⟨_, ?_⟩, rfl⟩
          rw [List.length_take, List.length_drop]
          omega
        have hopen : cipher.openFrame prims (UInt64.ofNat ordinal) descriptor.plaintextBytes (input.data.take length) tag =
            (decryptFrame prims (coreDescriptor descriptor) fileKey descriptor.plaintextBytes ordinal
              (input.data.take length) tag).orFail .crypto := by
          rw [← hdescriptor] at hlength hordinal ⊢
          subst hkey
          exact openFrame_canonical hordinal (by rw [← hlength, List.length_take]; omega)
        rw [hread, some_orFail, reporting_ok, ok_bind]
        dsimp only
        rw [hfront, hback, tryInto_eq_some.mpr htag, some_orFail, reporting_ok, ok_bind, hopen]
        simp only [Option.bind_eq_bind, Option.bind_some]
        rcases decryptFrame prims (coreDescriptor descriptor) fileKey descriptor.plaintextBytes ordinal
          (input.data.take length) tag with _ | plaintext
        · refine ⟨?_, fun _ => ⟨_, rfl⟩⟩
          intro plaintext behind hsome
          cases hsome
        · obtain ⟨hsome, hnone⟩ := ih rest hnext (output ++ plaintext)
          rw [hrest] at hsome hnone
          simp only [some_orFail, describe, ok_bind, Option.bind_some, Option.bind_eq_some_iff, Option.bind_eq_none_iff,
            Option.some.injEq]
          constructor
          · rintro _ behind ⟨⟨more, last⟩, hopened, hresult⟩
            obtain ⟨rfl, rfl⟩ := Prod.mk.inj hresult
            obtain ⟨final, hloop, hdata⟩ := hsome more last hopened
            exact ⟨final, by rw [hloop, List.append_assoc], hdata⟩
          · intro hbroken
            apply hnone
            rw [Option.eq_none_iff_forall_ne_some]
            intro opened hopened
            exact absurd (hbroken opened hopened) (by simp)
      · rw [Reader.readExact_of_lt (by omega)]
        refine ⟨?_, fun _ => ⟨_, rfl⟩⟩
        have hshort : tryInto 16 ((input.data.drop length).take 16) = none := by
          rw [Option.eq_none_iff_forall_ne_some]
          intro tag htag
          have hwidth := congrArg List.length (tryInto_eq_some.mp htag)
          rw [Bytes.length_val, List.length_take, List.length_drop] at hwidth
          omega
        rw [hshort]
        intro plaintext behind hopened
        cases hopened

end Stream

end Client

/-! ### Success of each implementation -/

section Success

variable {prims : FramePrimitives} {descriptor : EncryptionDescriptor} {directoryKey : Bytes 32}

theorem FrameCipher.new_of_key {fileKey : Bytes 32} (hvalid : validateDescriptor descriptor = .ok ())
    (hkey : deriveFileKey prims descriptor directoryKey = some fileKey) :
    ∃ cipher, FrameCipher.new prims descriptor directoryKey = .ok cipher ∧ cipher.StandsAt descriptor fileKey 0 :=
  ⟨⟨descriptor, hvalid, fileKey, 0⟩, FrameCipher.new_eq_ok.mpr ⟨rfl, hkey, rfl⟩, rfl, rfl, rfl⟩

def encodedLength (plaintextBytes frameBytes : Nat) : Nat :=
  plaintextBytes + expectedBlockCount plaintextBytes frameBytes * 16

theorem sealed_length {fileKey : Bytes 32} {plaintext encoded : List UInt8} {total : UInt64}
    (hvalid : validateDescriptor descriptor = .ok ())
    (h : encodedFrames prims descriptor fileKey total 0 (chunks descriptor.frameBytes.toNat plaintext) = some encoded) :
    encoded.length = encodedLength plaintext.length descriptor.frameBytes.toNat := by
  have hpos := frameBytes_pos hvalid
  rw [encodedFrames_length h, chunks_flatten hpos, chunks_length hpos, encodedLength]

theorem sealObject_eq_ok {plaintext encoded : Slice} :
    sealObject prims plaintext descriptor directoryKey = .ok encoded ↔
      validateDescriptor descriptor = .ok () ∧ ∃ fileKey, deriveFileKey prims descriptor directoryKey = some fileKey ∧
        encodedFrames prims descriptor fileKey (UInt64.ofNat plaintext.length) 0
          (chunks descriptor.frameBytes.toNat plaintext.bytes) = some encoded.bytes := by
  have htotal : (UInt64.ofNat plaintext.length).toNat = plaintext.length := toNat_ofNat_u64 plaintext.length_lt
  have hrest : plaintext.bytes.length =
      (UInt64.ofNat plaintext.length).toNat - 0 * descriptor.frameBytes.toNat := by
    rw [htotal, Nat.zero_mul, Nat.sub_zero, Slice.length]
  rw [sealObject]
  simp only [bind_eq_ok, reporting_eq_ok]
  constructor
  · rintro ⟨_, hvalid, cipher, hcipher, _, _, bytes, hbytes, hcollect⟩
    obtain ⟨hdescriptor, hkey, hzero⟩ := FrameCipher.new_eq_ok.mp hcipher
    rw [sealChunks_eq hvalid ⟨hdescriptor, rfl, hzero⟩ hrest, orFail_eq_ok] at hbytes
    rw [collect_eq_ok] at hcollect
    subst hcollect
    exact ⟨hvalid, _, hkey, by simpa using hbytes⟩
  · rintro ⟨hvalid, fileKey, hkey, hencoded⟩
    have hpos := frameBytes_pos hvalid
    obtain ⟨cipher, hcipher, hstands⟩ := FrameCipher.new_of_key hvalid hkey
    have hlength : encoded.bytes.length = _ := sealed_length hvalid hencoded
    have hbounded := encoded.bounded
    rw [hlength, encodedLength] at hbounded
    refine ⟨(), hvalid, cipher, hcipher, (), ?_, encoded.bytes, ?_, collect_eq_ok.mpr rfl⟩
    · rw [allocate, ensure_eq_ok, decide_eq_true_eq, divCeil_eq_expectedBlockCount hpos]
      exact hbounded
    · rw [sealChunks_eq hvalid hstands hrest, hencoded]
      rfl

/-- Opening in memory succeeds exactly when the layout accepts all bytes and leaves none. -/
theorem openObject_eq_ok {encoded plaintext : Slice} {total : UInt64} :
    openObject prims encoded total descriptor directoryKey = .ok plaintext ↔
      validateDescriptor descriptor = .ok () ∧ ∃ fileKey, deriveFileKey prims descriptor directoryKey = some fileKey ∧
        openedFrames prims descriptor fileKey total (framesBehind descriptor total 0) 0 encoded.bytes =
          some (plaintext.bytes, []) := by
  have hzero : total.toNat - 0 * descriptor.frameBytes.toNat = total.toNat := by rw [Nat.zero_mul, Nat.sub_zero]
  have hcount : framesBehind descriptor total 0 =
      expectedBlockCount total.toNat descriptor.frameBytes.toNat := by rw [framesBehind, hzero]
  rw [openObject]
  simp only [bind_eq_ok, reporting_eq_ok, orFail_eq_ok, checkedMul_eq_some, ensure_eq_ok, beq_iff_eq]
  constructor
  · rintro ⟨_, hvalid, tags, ⟨_, rfl⟩, expected, hexpected, _, hlength, cipher, hcipher, _, _, decoded, hdecoded, hcollect⟩
    obtain ⟨hdescriptor, hkey, _⟩ := FrameCipher.new_eq_ok.mp hcipher
    rw [divCeil_eq_expectedBlockCount (frameBytes_pos hvalid), ← hcount] at hexpected hdecoded
    rw [checkedAdd, Option.ite_none_right_eq_some, Option.some.injEq] at hexpected
    obtain ⟨_, rfl⟩ := hexpected
    rw [openChunks_eq hvalid hdescriptor rfl rfl (by simp) (by simpa [hzero, Slice.length] using hlength.symm), orFail_eq_ok,
      Option.map_eq_some_iff] at hdecoded
    obtain ⟨⟨opened, behind⟩, hopened, rfl⟩ := hdecoded
    rw [collect_eq_ok, List.nil_append] at hcollect
    rw [List.drop_zero] at hopened
    have hsizes := openedFrames_length hvalid rfl hopened
    have hbehind : behind = [] := by
      rw [← List.length_eq_zero_iff]
      rw [Slice.length] at hlength
      omega
    exact ⟨hvalid, _, hkey, by rw [hopened, hbehind, ← hcollect]⟩
  · rintro ⟨hvalid, fileKey, hkey, hopened⟩
    have hpos := frameBytes_pos hvalid
    have hsizes := openedFrames_length hvalid rfl hopened
    have hbounded := encoded.bounded
    have hmaximum : maximumAllocation < 2 ^ 64 := by decide
    rw [hzero, List.length_nil] at hsizes
    obtain ⟨cipher, hcipher, hstands⟩ := FrameCipher.new_of_key hvalid hkey
    have hsum : total.toNat + framesBehind descriptor total 0 * 16 = encoded.bytes.length := by omega
    rw [divCeil_eq_expectedBlockCount hpos, ← hcount]
    refine ⟨(), hvalid, _, ⟨by omega, rfl⟩, encoded.bytes.length, ?_, (), rfl, cipher, hcipher, (), ?_, plaintext.bytes, ?_,
      collect_eq_ok.mpr rfl⟩
    · rw [checkedAdd, hsum, if_pos (by omega)]
    · rw [allocate, ensure_eq_ok, decide_eq_true_eq]
      omega
    · rw [openChunks_eq hvalid hstands.descriptor_eq hstands.fileKey_eq rfl (by simp) (by simpa [hzero] using hsum),
        List.drop_zero, hopened]
      rfl

theorem Client.sealFrames_eq_ok {sha256 : List UInt8 → Digest} (streamed : Client.Descriptor) {plaintext : Slice}
    {input : Reader} (hcore : Client.coreDescriptor streamed = descriptor)
    (htotal : streamed.plaintextBytes = UInt64.ofNat plaintext.length) (hinput : input.data = plaintext.bytes)
    (hframe : descriptor.frameBytes.toNat ≤ maximumAllocation) {encoded : List UInt8} {count : UInt64} {digest : Text} :
    Client.sealFrames prims sha256 input streamed directoryKey = .ok (encoded, count, digest) ↔
      validateDescriptor descriptor = .ok () ∧ ∃ fileKey, deriveFileKey prims descriptor directoryKey = some fileKey ∧
        encodedFrames prims descriptor fileKey (UInt64.ofNat plaintext.length) 0
          (chunks descriptor.frameBytes.toNat plaintext.bytes) = some encoded ∧
        count = UInt64.ofNat encoded.length ∧ digest = hexEncode (sha256 encoded).val := by
  subst hcore
  have hlength : input.data.length = streamed.plaintextBytes.toNat - 0 * streamed.frameBytes.toNat := by
    rw [htotal, toNat_ofNat_u64 plaintext.length_lt, Nat.zero_mul, Nat.sub_zero, hinput, Slice.length]
  have hguard : (!(streamed.keyEpoch == 0 || streamed.frameBytes == 0)) = true ↔
      validateDescriptor (Client.coreDescriptor streamed) = .ok () := by
    rw [validateDescriptor, ensure_eq_ok]
    rfl
  rw [Client.sealFrames]
  simp only [bind_eq_ok, reporting_eq_ok, ensure_eq_ok, Client.describe_eq_ok, hguard]
  constructor
  · rintro ⟨_, hvalid, cipher, hcipher, _, _, ⟨rest, output, bytes⟩, hloop, _, _, hresult⟩
    obtain ⟨hdescriptor, hkey, hzero⟩ := FrameCipher.new_eq_ok.mp hcipher
    obtain ⟨hsome, hnone⟩ := Client.sealLoop_eq hvalid prims ⟨hdescriptor, rfl, hzero⟩
      (Client.frameCount_eq_framesBehind streamed) hlength [] 0
    rcases hencoded : encodedFrames prims (Client.coreDescriptor streamed) cipher.fileKey streamed.plaintextBytes 0
      (chunks streamed.frameBytes.toNat input.data) with _ | layout
    · obtain ⟨fault, hfault⟩ := hnone hencoded
      rw [hfault] at hloop
      simp at hloop
    · obtain ⟨last, hlast, _⟩ := hsome layout hencoded
      rw [hlast, Except.ok.injEq, Prod.mk.injEq, Prod.mk.injEq] at hloop
      obtain ⟨_, rfl, rfl⟩ := hloop
      simp only [List.nil_append, UInt64.zero_add, Except.ok.injEq, Prod.mk.injEq] at hresult
      obtain ⟨rfl, rfl, rfl⟩ := hresult
      rw [htotal, hinput] at hencoded
      exact ⟨hvalid, _, hkey, hencoded, rfl, rfl⟩
  · rintro ⟨hvalid, fileKey, hkey, hencoded, rfl, rfl⟩
    obtain ⟨cipher, hcipher, hstands⟩ := FrameCipher.new_of_key hvalid hkey
    rw [← htotal, ← hinput] at hencoded
    obtain ⟨last, hlast, hempty⟩ := (Client.sealLoop_eq hvalid prims hstands
      (Client.frameCount_eq_framesBehind streamed) hlength [] 0).1 encoded hencoded
    refine ⟨(), hvalid, cipher, hcipher, (), ?_, _, hlast, (), ?_, by simp⟩
    · rw [allocate, ensure_eq_ok, decide_eq_true_eq]
      exact hframe
    · simp [Client.requireEof, Reader.read, hempty]

theorem Client.openFrames_eq_ok (streamed : Client.Descriptor) {input : Reader}
    (hcore : Client.coreDescriptor streamed = descriptor)
    (hframe : descriptor.frameBytes.toNat + 16 ≤ maximumAllocation) {plaintext : List UInt8} :
    Client.openFrames prims input streamed directoryKey = .ok plaintext ↔
      validateDescriptor descriptor = .ok () ∧ ∃ fileKey, deriveFileKey prims descriptor directoryKey = some fileKey ∧
        openedFrames prims descriptor fileKey streamed.plaintextBytes
          (framesBehind descriptor streamed.plaintextBytes 0) 0 input.data = some (plaintext, []) := by
  subst hcore
  change streamed.frameBytes.toNat + 16 ≤ maximumAllocation at hframe
  have hmaximum : maximumAllocation < 2 ^ 64 := by decide
  have hcapacity : checkedAdd streamed.frameBytes.toNat 16 = some (streamed.frameBytes.toNat + 16) := by
    rw [checkedAdd, if_pos (by omega)]
  have hallocate : (allocate (streamed.frameBytes.toNat + 16) : Except (Fault Client.Error) Unit) = .ok () := by
    rw [allocate, ensure_eq_ok, decide_eq_true_eq]
    exact hframe
  rw [Client.openFrames, hcapacity]
  simp only [some_orFail, reporting_ok, ok_bind, hallocate, bind_eq_ok, Client.describe_eq_ok]
  constructor
  · rintro ⟨cipher, hcipher, ⟨rest, output⟩, hloop, hresult⟩
    obtain ⟨hdescriptor, hkey, _⟩ := FrameCipher.new_eq_ok.mp hcipher
    have hvalid := cipher.valid
    rw [hdescriptor] at hvalid
    obtain ⟨hsome, hnone⟩ := Client.openLoop_eq hvalid prims hdescriptor rfl input
      (Client.frameCount_eq_framesBehind streamed) []
    rw [← Client.frameCount_eq_framesBehind]
    rcases hopened : openedFrames prims (Client.coreDescriptor streamed) cipher.fileKey streamed.plaintextBytes
      (Client.frameCount streamed) 0 input.data with _ | ⟨opened, behind⟩
    · obtain ⟨fault, hfault⟩ := hnone hopened
      rw [hfault] at hloop
      simp at hloop
    · obtain ⟨last, hlast, hdata⟩ := hsome opened behind hopened
      rw [hlast, Except.ok.injEq, Prod.mk.injEq] at hloop
      obtain ⟨rfl, rfl⟩ := hloop
      obtain ⟨_, hprobe, hresult⟩ := hresult
      rw [reporting_eq_ok, ensure_eq_ok, beq_iff_eq, List.length_eq_zero_iff, Reader.read_fst_eq_nil (by decide), hdata]
        at hprobe
      rw [Except.ok.injEq, List.nil_append] at hresult
      have hwritten : opened = plaintext := hresult
      exact ⟨hvalid, _, hkey, by rw [hopened, hprobe, hwritten]⟩
  · rintro ⟨hvalid, fileKey, hkey, hopened⟩
    obtain ⟨cipher, hcipher, hstands⟩ := FrameCipher.new_of_key hvalid hkey
    rw [← Client.frameCount_eq_framesBehind] at hopened
    obtain ⟨last, hlast, hdata⟩ := (Client.openLoop_eq hvalid prims hstands.descriptor_eq
      hstands.fileKey_eq input (Client.frameCount_eq_framesBehind streamed) []).1 plaintext [] hopened
    exact ⟨cipher, hcipher, _, hlast, by simp [Reader.read, hdata]⟩

end Success

/-! ### Agreement -/

theorem expectedEncodedBytes_encrypted (plaintextBytes : UInt64) {frameBytes : UInt64} (hframe : frameBytes ≠ 0)
    (hfits : encodedLength plaintextBytes.toNat frameBytes.toNat < 2 ^ 64) :
    expectedEncodedBytes encryptedSuite plaintextBytes frameBytes =
      some (UInt64.ofNat (encodedLength plaintextBytes.toNat frameBytes.toNat)) := by
  have hsuite : encryptedSuite ≠ plaintextSuite := by decide
  have hpos : 0 < frameBytes := by
    rw [UInt64.lt_iff_toNat_lt]
    exact Nat.pos_of_ne_zero fun hzero => hframe (UInt64.toNat_inj.mp hzero)
  have hcount : (if plaintextBytes = 0 then 0 else 1 + (plaintextBytes.toNat - 1) / frameBytes.toNat) =
      expectedBlockCount plaintextBytes.toNat frameBytes.toNat := by
    simp [expectedBlockCount, ← UInt64.toNat_inj]
  rw [encodedLength] at hfits ⊢
  rw [expectedEncodedBytes, if_neg hsuite, if_pos ⟨rfl, hpos⟩, hcount]
  dsimp only
  rw [checkedMul_eq_some.mpr ⟨by rw [aesGcmFrameTagBytes]; omega, rfl⟩]
  simp only [Option.bind_eq_bind, Option.bind_some]
  rw [checkedAdd, if_pos (by rw [aesGcmFrameTagBytes]; omega)]
  rfl

/-- The descriptor of a streamed object of a given length. -/
def EncryptionDescriptor.streamed (descriptor : EncryptionDescriptor) (plaintextBytes : UInt64) : Client.Descriptor where
  directoryId := descriptor.directoryId
  versionId := descriptor.versionId
  keyEpoch := descriptor.keyEpoch
  frameBytes := descriptor.frameBytes
  plaintextBytes

section Oversized

variable {prims : FramePrimitives} {descriptor : EncryptionDescriptor} {directoryKey : Bytes 32}

theorem allocate_eq_panicked {ε : Type} {size : Nat} (hsize : maximumAllocation < size) :
    (allocate size : Except (Fault ε) Unit) = .error .panicked := by
  rw [allocate, ensure, if_neg (by simpa using hsize)]

theorem Client.sealFrames_oversized {sha256 : List UInt8 → Digest}
    (hvalid : validateDescriptor descriptor = .ok ()) (hframe : maximumAllocation < descriptor.frameBytes.toNat)
    (plaintextBytes : UInt64) (input : Reader) :
    Client.sealFrames prims sha256 input (descriptor.streamed plaintextBytes) directoryKey =
      Client.describe .invalidResponse (FrameCipher.new prims descriptor directoryKey) >>= fun _ => .error .panicked := by
  have hguard : (!((descriptor.streamed plaintextBytes).keyEpoch == 0 ||
      (descriptor.streamed plaintextBytes).frameBytes == 0)) = true := by
    rw [validateDescriptor, ensure_eq_ok] at hvalid
    exact hvalid
  rw [Client.sealFrames, hguard, ensure_true, reporting_ok, ok_bind]
  change _ >>= _ = _
  congr 1
  funext cipher
  rw [show (descriptor.streamed plaintextBytes).frameBytes = descriptor.frameBytes from rfl, allocate_eq_panicked hframe,
    error_bind]

theorem Client.openFrames_oversized (hframe : maximumAllocation < descriptor.frameBytes.toNat + 16)
    (plaintextBytes : UInt64) (input : Reader) :
    Client.openFrames prims input (descriptor.streamed plaintextBytes) directoryKey =
      Client.describe .invalidResponse (FrameCipher.new prims descriptor directoryKey) >>= fun _ =>
        .error (if descriptor.frameBytes.toNat + 16 < 2 ^ 64 then .panicked
          else .reported (.invalidResponse "encoded frame size overflows")) := by
  rw [Client.openFrames]
  congr 1
  funext cipher
  rw [show (descriptor.streamed plaintextBytes).frameBytes = descriptor.frameBytes from rfl, checkedAdd]
  split
  · rw [some_orFail, reporting_ok, ok_bind, allocate_eq_panicked hframe, error_bind]
  · rfl

end Oversized

/-- What sealing and opening under one descriptor and directory key promise. -/
structure FrameRoundTrip (prims : FramePrimitives) (sha256 : List UInt8 → Digest) (descriptor : EncryptionDescriptor)
    (directoryKey : Bytes 32) : Prop where
  /-- Sealing refuses nothing that the primitives accept and that fits one block of memory. -/
  succeeds : ∀ plaintext : Slice, (deriveFileKey prims descriptor directoryKey).isSome →
    (∀ fileKey nonce aad, ∀ frame ∈ chunks descriptor.frameBytes.toNat plaintext.bytes,
      (prims.encrypt fileKey nonce aad frame).isSome) →
    encodedLength plaintext.length descriptor.frameBytes.toNat ≤ maximumAllocation →
    ∃ encoded, sealObject prims plaintext descriptor directoryKey = .ok encoded
  opens : ∀ plaintext encoded : Slice, sealObject prims plaintext descriptor directoryKey = .ok encoded →
    openObject prims encoded (UInt64.ofNat plaintext.length) descriptor directoryKey = .ok plaintext
  /-- Plaintext length plus 16 bytes per frame, as the control plane expects. -/
  length : ∀ plaintext encoded : Slice, sealObject prims plaintext descriptor directoryKey = .ok encoded →
    encoded.length = plaintext.length + (chunks descriptor.frameBytes.toNat plaintext.bytes).length * 16 ∧
    expectedEncodedBytes encryptedSuite (UInt64.ofNat plaintext.length) descriptor.frameBytes =
      some (UInt64.ofNat encoded.length)
  /-- The client writes the same bytes and reports their length and digest. -/
  streamsSeal : descriptor.frameBytes.toNat ≤ maximumAllocation → ∀ (plaintext encoded : Slice) (input : Reader),
    input.data = plaintext.bytes →
    (sealObject prims plaintext descriptor directoryKey = .ok encoded ↔
      Client.sealFrames prims sha256 input (descriptor.streamed (UInt64.ofNat plaintext.length)) directoryKey =
        .ok (encoded.bytes, UInt64.ofNat encoded.length, hexEncode (sha256 encoded.bytes).val))
  /-- The client accepts the same objects and writes the same plaintext. -/
  streamsOpen : descriptor.frameBytes.toNat + 16 ≤ maximumAllocation →
    ∀ (encoded plaintext : Slice) (plaintextBytes : UInt64) (input : Reader), input.data = encoded.bytes →
    (openObject prims encoded plaintextBytes descriptor directoryKey = .ok plaintext ↔
      Client.openFrames prims input (descriptor.streamed plaintextBytes) directoryKey = .ok plaintext.bytes)
  /-- Beyond that the client seals nothing: under a key that is had, the buffer for a frame is not. -/
  refusesSeal : maximumAllocation < descriptor.frameBytes.toNat → ∀ (plaintextBytes : UInt64) (input : Reader),
    (∀ written, Client.sealFrames prims sha256 input (descriptor.streamed plaintextBytes) directoryKey ≠ .ok written) ∧
    ((deriveFileKey prims descriptor directoryKey).isSome →
      Client.sealFrames prims sha256 input (descriptor.streamed plaintextBytes) directoryKey = .error .panicked)
  /-- Nor does it open anything, and a size that is no 64-bit integer is refused before the buffer is asked for. -/
  refusesOpen : maximumAllocation < descriptor.frameBytes.toNat + 16 → ∀ (plaintextBytes : UInt64) (input : Reader),
    (∀ written, Client.openFrames prims input (descriptor.streamed plaintextBytes) directoryKey ≠ .ok written) ∧
    ((deriveFileKey prims descriptor directoryKey).isSome →
      Client.openFrames prims input (descriptor.streamed plaintextBytes) directoryKey =
        .error (if descriptor.frameBytes.toNat + 16 < 2 ^ 64 then .panicked
          else .reported (.invalidResponse "encoded frame size overflows")))

theorem encodedFrames_isSome {prims : FramePrimitives} {fileKey : Bytes 32} (descriptor : EncryptionDescriptor)
    (total : UInt64) (ordinal : Nat) {frames : List (List UInt8)}
    (haccepts : ∀ nonce aad, ∀ frame ∈ frames, (prims.encrypt fileKey nonce aad frame).isSome) :
    (encodedFrames prims descriptor fileKey total ordinal frames).isSome := by
  induction frames generalizing ordinal with
  | nil => rfl
  | cons frame frames ih =>
      obtain ⟨sealed, hsealed⟩ := Option.isSome_iff_exists.mp (haccepts (nonce (UInt64.ofNat ordinal))
        (frameAad descriptor (UInt64.ofNat ordinal) (UInt64.ofNat frame.length) total) frame List.mem_cons_self)
      obtain ⟨rest, hrest⟩ := Option.isSome_iff_exists.mp (ih (ordinal + 1)
        fun nonce aad other hother => haccepts nonce aad other (List.mem_cons_of_mem _ hother))
      simp [encodedFrames, encryptFrame, hsealed, hrest]

/-- Every valid descriptor and key has the round trip on every path. -/
theorem frameRoundTrip (prims : FramePrimitives) (sha256 : List UInt8 → Digest) (descriptor : EncryptionDescriptor)
    (directoryKey : Bytes 32) (hdecrypts : prims.Decrypts) (hvalid : validateDescriptor descriptor = .ok ()) :
    FrameRoundTrip prims sha256 descriptor directoryKey := by
  have hpos := frameBytes_pos hvalid
  -- what fails behind the file key fails with its own fault as soon as there is one
  have hnothing : ∀ {α : Type} (fault : Fault Client.Error),
      (∀ written, (Client.describe .invalidResponse (FrameCipher.new prims descriptor directoryKey) >>= fun _ =>
        (.error fault : Except (Fault Client.Error) α)) ≠ .ok written) ∧
      ((deriveFileKey prims descriptor directoryKey).isSome →
        (Client.describe .invalidResponse (FrameCipher.new prims descriptor directoryKey) >>= fun _ =>
          (.error fault : Except (Fault Client.Error) α)) = .error fault) := by
    intro α fault
    constructor
    · intro written hok
      obtain ⟨_, _, himpossible⟩ := bind_eq_ok.mp hok
      cases himpossible
    · intro hkey
      obtain ⟨fileKey, hfileKey⟩ := Option.isSome_iff_exists.mp hkey
      obtain ⟨cipher, hcipher, _⟩ := FrameCipher.new_of_key hvalid hfileKey
      rw [hcipher]
      rfl
  refine ⟨fun plaintext hkey haccepts hfits => ?_, fun plaintext encoded hseal => ?_, fun plaintext encoded hseal => ?_,
    fun hframe plaintext encoded input hinput => ?_, fun hframe encoded plaintext total input hinput => ?_,
    fun hframe total input => ?_, fun hframe total input => ?_⟩
  · obtain ⟨fileKey, hfileKey⟩ := Option.isSome_iff_exists.mp hkey
    obtain ⟨encoded, hencoded⟩ := Option.isSome_iff_exists.mp
      (encodedFrames_isSome descriptor (UInt64.ofNat plaintext.length) 0 (haccepts fileKey))
    have hlength := sealed_length hvalid hencoded
    exact ⟨⟨encoded, hlength.trans_le hfits⟩, sealObject_eq_ok.mpr ⟨hvalid, fileKey, hfileKey, hencoded⟩⟩
  · obtain ⟨_, fileKey, hkey, hencoded⟩ := sealObject_eq_ok.mp hseal
    have htotal : (UInt64.ofNat plaintext.length).toNat = plaintext.length := toNat_ofNat_u64 plaintext.length_lt
    have hrest : plaintext.bytes.length = (UInt64.ofNat plaintext.length).toNat - 0 * descriptor.frameBytes.toNat := by
      rw [htotal, Nat.zero_mul, Nat.sub_zero, Slice.length]
    have hcount : framesBehind descriptor (UInt64.ofNat plaintext.length) 0 =
        (chunks descriptor.frameBytes.toNat plaintext.bytes).length := by
      rw [framesBehind, ← hrest, chunks_length hpos]
    have hopened := openedFrames_encodedFrames hdecrypts hvalid hrest hencoded []
    rw [List.append_nil, ← hcount] at hopened
    exact openObject_eq_ok.mpr ⟨hvalid, fileKey, hkey, hopened⟩
  · obtain ⟨_, fileKey, hkey, hencoded⟩ := sealObject_eq_ok.mp hseal
    have hlength : encoded.length = _ := sealed_length hvalid hencoded
    have htotal : (UInt64.ofNat plaintext.length).toNat = plaintext.length := toNat_ofNat_u64 plaintext.length_lt
    refine ⟨by rw [hlength, chunks_length hpos, encodedLength, Slice.length], ?_⟩
    have hbounded := encoded.length_lt
    rw [hlength] at hbounded ⊢
    have hformula := expectedEncodedBytes_encrypted (UInt64.ofNat plaintext.length)
      (validateDescriptor_eq_ok.mp hvalid).2 (by rwa [htotal])
    rw [hformula, htotal, Slice.length]
  · refine sealObject_eq_ok.trans (Iff.trans ?_
      (Client.sealFrames_eq_ok (descriptor.streamed _) rfl rfl hinput hframe).symm)
    simp only [Slice.length, and_self, and_true]
    exact Iff.rfl
  · refine openObject_eq_ok.trans (Iff.trans ?_ (Client.openFrames_eq_ok (descriptor.streamed _) rfl hframe).symm)
    rw [hinput]
    rfl
  · rw [Client.sealFrames_oversized hvalid hframe]
    exact hnothing _
  · rw [Client.openFrames_oversized hframe]
    exact hnothing _

/-! Recorded calls of the primitives for the payload and key of the codec's own tests. -/

def SealedFrame.answersEncrypt (record : SealedFrame) (key : Bytes 32) (nonce : Bytes 12) (aad frame : List UInt8) :
    Bool :=
  record.key = key ∧ record.nonce = nonce ∧ record.aad = aad ∧ record.plaintext = frame

def SealedFrame.answersDecrypt (record : SealedFrame) (key : Bytes 32) (nonce : Bytes 12) (aad frame : List UInt8)
    (tag : Bytes 16) : Bool :=
  record.key = key ∧ record.nonce = nonce ∧ record.aad = aad ∧ record.ciphertext = frame ∧ record.tag = tag

/-- Primitives that answer the recorded calls and refuse every other one. -/
def replay (salt directoryKey fileKey : Bytes 32) (records : List SealedFrame) : FramePrimitives where
  hkdf salt' directoryKey' info :=
    if salt' = salt ∧ directoryKey' = directoryKey ∧ info = fileKeyInfo then some fileKey else none
  encrypt key nonce aad frame := do
    let record ← records.find? fun record => record.answersEncrypt key nonce aad frame
    let ciphertext ← tryInto frame.length record.ciphertext
    some (ciphertext, record.tag)
  decrypt key nonce aad frame tag := do
    let record ← records.find? fun record => record.answersDecrypt key nonce aad frame tag
    tryInto frame.length record.plaintext

/-- Records that differ in the plaintext differ in what is opened. -/
def Distinct (records : List SealedFrame) : Prop :=
  ∀ left ∈ records, ∀ right ∈ records, left.key = right.key ∧ left.nonce = right.nonce ∧ left.aad = right.aad ∧
    left.ciphertext = right.ciphertext ∧ left.tag = right.tag → left.plaintext = right.plaintext

instance (records : List SealedFrame) : Decidable (Distinct records) := by
  unfold Distinct
  infer_instance

theorem replay_decrypts {salt directoryKey fileKey : Bytes 32} {records : List SealedFrame}
    (hdistinct : Distinct records) : (replay salt directoryKey fileKey records).Decrypts := by
  intro key nonce aad frame ciphertext tag h
  simp only [replay, Option.bind_eq_bind, Option.bind_eq_some_iff, tryInto_eq_some, Option.some.injEq,
    Prod.mk.injEq] at h
  obtain ⟨record, hfind, encrypted, hciphertext, rfl, rfl⟩ := h
  have hmem := List.mem_of_find?_eq_some hfind
  have hmatch := List.find?_some hfind
  simp only [SealedFrame.answersEncrypt, decide_eq_true_eq] at hmatch
  obtain ⟨hkey, hnonce, haad, hplaintext⟩ := hmatch
  simp only [replay, Option.bind_eq_bind]
  rcases hopen : records.find? fun other => other.answersDecrypt key nonce aad encrypted.val record.tag
    with _ | other
  · have hnone := List.find?_eq_none.mp hopen record hmem
    simp [SealedFrame.answersDecrypt, hkey, hnonce, haad, hciphertext] at hnone
  · have hother := List.find?_some hopen
    simp only [SealedFrame.answersDecrypt, decide_eq_true_eq] at hother
    obtain ⟨hkey', hnonce', haad', hciphertext', htag'⟩ := hother
    have hsame := hdistinct other (List.mem_of_find?_eq_some hopen) record hmem
      ⟨hkey'.trans hkey.symm, hnonce'.trans hnonce.symm, haad'.trans haad.symm, hciphertext'.trans hciphertext.symm, htag'⟩
    have hframe : other.plaintext = frame := hsame.trans hplaintext
    obtain ⟨array, harray⟩ : ∃ array : Bytes encrypted.val.length, other.plaintext = array.val :=
      ⟨⟨other.plaintext, by rw [hframe]; exact encrypted.property.symm⟩, rfl⟩
    rw [hopen]
    simp only [Option.bind_some, tryInto_eq_some.mpr harray]
    exact congrArg some (harray.symm.trans hframe)

namespace Recorded

/-- An array of equal bytes. -/
def filled (width : Nat) (byte : UInt8) : Bytes width := ⟨List.replicate width byte, by simp⟩

def descriptor (frameBytes : UInt64) : EncryptionDescriptor where
  directoryId := filled 16 1
  versionId := filled 16 2
  keyEpoch := 1
  frameBytes

def directoryKey : Bytes 32 := filled 32 3

def salt : Bytes 32 := ⟨(filled 16 1).val ++ (filled 16 2).val, by simp⟩

def fileKey : Bytes 32 :=
  ⟨[116, 186, 187, 126, 170, 59, 97, 229, 44, 107, 32, 176, 251, 149, 111, 57, 28, 175, 220, 126, 144, 102, 159, 119, 99,
    159, 82, 94, 208, 137, 202, 96], by decide⟩

/-- The frame at an ordinal of an object, with its recorded ciphertext and tag. -/
def frame (frameBytes ordinal total : UInt64) (plaintext ciphertext : List UInt8) (tag : Bytes 16) : SealedFrame where
  key := fileKey
  nonce := nonce ordinal
  aad := frameAad (descriptor frameBytes) ordinal (UInt64.ofNat plaintext.length) total
  plaintext
  ciphertext
  tag

def payload : List SealedFrame :=
  [frame 4 0 7 [112, 97, 121, 108] [95, 133, 20, 156]
     ⟨[42, 11, 82, 56, 202, 97, 117, 9, 133, 136, 39, 58, 32, 196, 234, 151], by decide⟩,
   frame 4 1 7 [111, 97, 100] [39, 146, 243]
     ⟨[62, 91, 219, 30, 151, 135, 221, 36, 107, 55, 50, 237, 227, 30, 174, 148], by decide⟩]

/-- One byte in one frame of the largest size. -/
def oversized : List SealedFrame :=
  [frame 18446744073709551615 0 1 [112] [95] ⟨[217, 30, 82, 37, 138, 236, 166, 3, 99, 96, 30, 0, 193, 109, 240, 198], by decide⟩]

end Recorded

open Recorded in
theorem frameRoundTrip_payload :
    FrameRoundTrip (replay salt directoryKey fileKey payload) polynomialDigest (descriptor 4) directoryKey :=
  frameRoundTrip (replay salt directoryKey fileKey payload) polynomialDigest (descriptor 4) directoryKey
    (replay_decrypts (by decide +kernel)) (by decide)

open Recorded in
/-- A frame size close to the largest 64-bit integer works in memory and not in the streaming client: sealing asks for a
frame buffer that no block of memory holds, and opening refuses the size of an encoded frame. -/
theorem frameRoundTrip_oversized :
    let prims := replay salt directoryKey fileKey oversized
    let plaintext : Slice := ⟨[112], by decide⟩
    let encoded : Slice := ⟨[95, 217, 30, 82, 37, 138, 236, 166, 3, 99, 96, 30, 0, 193, 109, 240, 198], by decide⟩
    let streamed := (descriptor 18446744073709551615).streamed 1
    prims.Decrypts ∧ validateDescriptor (descriptor 18446744073709551615) = .ok () ∧
      sealObject prims plaintext (descriptor 18446744073709551615) directoryKey = .ok encoded ∧
      openObject prims encoded 1 (descriptor 18446744073709551615) directoryKey = .ok plaintext ∧
      Client.sealFrames prims polynomialDigest ⟨plaintext.bytes, 0, fun _ => 0⟩ streamed directoryKey =
        .error .panicked ∧
      Client.openFrames prims ⟨encoded.bytes, 0, fun _ => 0⟩ streamed directoryKey =
        .error (.reported (.invalidResponse "encoded frame size overflows")) := by
  have hdecrypts : (replay salt directoryKey fileKey oversized).Decrypts := replay_decrypts (by decide +kernel)
  have hseal : sealObject (replay salt directoryKey fileKey oversized) ⟨[112], by decide⟩ (descriptor 18446744073709551615)
      directoryKey = .ok ⟨[95, 217, 30, 82, 37, 138, 236, 166, 3, 99, 96, 30, 0, 193, 109, 240, 198], by decide⟩ := by
    refine sealObject_eq_ok.mpr ⟨by decide +kernel, fileKey, by decide +kernel, ?_⟩
    rw [chunks_cons (by decide) (by decide), List.drop_of_length_le (by decide), chunks_nil]
    decide +kernel
  exact ⟨hdecrypts, by decide +kernel, hseal, by decide +kernel, by decide +kernel, by decide +kernel⟩

end Skydriver
