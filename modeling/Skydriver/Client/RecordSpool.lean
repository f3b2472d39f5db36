import Skydriver.Integrity.Directory
import Skydriver.Lib.Buffers
import Skydriver.Lib.StrictJson

/-!
# Record spools

A spool keeps the records of a sync plan in a private file.  Every record is framed by its length and a tag over its
ordinal, its length and its bytes, under a key that no other spool has, and the reader knows how many records there are
and their digest.  The reader gives back the records of the file that was written; of any other file it gives back some
of the first ones and then an error, as long as nobody else makes tags under the key.
-/

namespace Skydriver

open Checked

def maximumSpoolRecordBytes : Nat := 1024 * 1024
def spoolRecordTagBytes : Nat := 32
def spoolRecordTagDomain : List UInt8 := utf8 "skydriver.sync-record-spool.v1" ++ [0]

inductive SpoolError where
  | encode
  | recordBound
  | recordCount
  | sealDiffers
  | readLength
  | length
  | readRecord
  | readTag
  | authentication
  | decode
deriving DecidableEq

/-- The text of an error, in front of what the failing call adds. -/
def SpoolError.message : SpoolError → String
  | .encode => "encode sync spool record"
  | .recordBound => "sync spool record exceeds its local bound"
  | .recordCount => "sync spool record count overflow"
  | .sealDiffers => "sync record spool seal differs"
  | .readLength => "read sync spool record length"
  | .length => "sync spool record length is invalid"
  | .readRecord => "read sync spool record"
  | .readTag => "read sync spool record tag"
  | .authentication => "sync spool record authentication differs"
  | .decode => "decode sync spool record"

/-- How the records of one type are stored; what was stored is read back as it was. -/
structure RecordCodec (T : Type) where
  toVec : T → Option (List UInt8)
  fromSlice : List UInt8 → Option T
  fromSlice_toVec : ∀ {record encoded}, toVec record = some encoded → fromSlice encoded = some record

section Spools

variable {T : Type} (codec : RecordCodec T) (mac : Bytes 32 → List UInt8 → Bytes 32) (sha256 : List UInt8 → Digest)

/-- What a tag authenticates. -/
def spoolMessage (ordinal : Nat) (encodedLength encoded : List UInt8) : List UInt8 :=
  spoolRecordTagDomain ++ bigEndian 8 ordinal ++ encodedLength ++ encoded

/-- `spool_record_tag`. -/
def spoolRecordTag (authenticationKey : Bytes 32) (ordinal : Nat) (encodedLength encoded : List UInt8) : Bytes 32 :=
  mac authenticationKey (spoolMessage ordinal encodedLength encoded)

/-! ### Writing -/

/-- A spool being written: the bytes of its file, those its running digest was given, and the number of its records. -/
structure RecordSpool where
  written : List UInt8
  digest : List UInt8
  records : Nat
  authenticationKey : Bytes 32

def RecordSpool.create (authenticationKey : Bytes 32) : RecordSpool := ⟨[], [], 0, authenticationKey⟩

/-- `RecordSpool::append`. -/
def RecordSpool.append (spool : RecordSpool) (record : T) : Except SpoolError RecordSpool := do
  let encoded ← (codec.toVec record).orFail .encode
  ensure .recordBound (!encoded.isEmpty && encoded.length ≤ maximumSpoolRecordBytes)
  let encodedLength := bigEndian 4 encoded.length
  let tag := spoolRecordTag mac spool.authenticationKey spool.records encodedLength encoded
  ensure .recordCount (spool.records + 1 < 2 ^ 64)
  .ok { spool with
    written := spool.written ++ (encodedLength ++ (encoded ++ tag.val))
    digest := spool.digest ++ (encodedLength ++ (encoded ++ tag.val))
    records := spool.records + 1 }

/-- Append records in turn, up to the first that fails. -/
def RecordSpool.appendAll (spool : RecordSpool) (records : List T) : Except SpoolError RecordSpool :=
  records.foldlM (RecordSpool.append codec mac) spool

/-! ### Reading -/

structure RecordSpoolReader where
  file : Reader
  expectedDigest : Digest
  expectedRecords : Nat
  observedDigest : List UInt8
  observedRecords : Nat
  finished : Bool
  authenticationKey : Bytes 32

/-- `RecordSpool::finish`, with whatever file is found when it is opened again. -/
def RecordSpool.finish (spool : RecordSpool) (file : Reader) : RecordSpoolReader :=
  ⟨file, sha256 spool.digest, spool.records, [], 0, false, spool.authenticationKey⟩

/-- The next record behind the first byte of its length. -/
def RecordSpoolReader.readRecord (reader : RecordSpoolReader) (first : List UInt8) (file : Reader) :
    Except SpoolError (Except SpoolError T × RecordSpoolReader) := do
  let (others, file) ← (file.readExact 3).orFail .readLength
  let encodedLength := first ++ others
  let length := bigEndianValue encodedLength
  ensure .length (length ≠ 0 && length ≤ maximumSpoolRecordBytes)
  let (encoded, file) ← (file.readExact length).orFail .readRecord
  let (tag, file) ← (file.readExact spoolRecordTagBytes).orFail .readTag
  ensure .authentication
    (tag == (spoolRecordTag mac reader.authenticationKey reader.observedRecords encodedLength encoded).val)
  ensure .recordCount (reader.observedRecords + 1 < 2 ^ 64)
  .ok ((codec.fromSlice encoded).orFail .decode, { reader with
    file
    observedDigest := reader.observedDigest ++ (encodedLength ++ (encoded ++ tag))
    observedRecords := reader.observedRecords + 1 })

/-- `RecordSpoolReader::next`. -/
def RecordSpoolReader.next (reader : RecordSpoolReader) : Option (Except SpoolError T) × RecordSpoolReader :=
  if reader.finished then (none, reader)
  else
    match reader.file.read 1 with
    | ([], file) =>
        let after := { reader with file, finished := true }
        if reader.observedRecords ≠ reader.expectedRecords ∨ sha256 reader.observedDigest ≠ reader.expectedDigest then
          (some (.error .sealDiffers), after)
        else (none, after)
    | (first, file) =>
        match reader.readRecord codec mac first file with
        | .ok (item, after) => (some item, after)
        | .error error => (some (.error error), { reader with finished := true })

/-- The items of a reader up to the end that it reports. -/
def RecordSpoolReader.drain : Nat → RecordSpoolReader → Option (List (Except SpoolError T))
  | 0, _ => none
  | fuel + 1, reader =>
      match reader.next codec mac sha256 with
      | (none, _) => some []
      | (some item, after) => (drain fuel after).map (item :: ·)

/-! ### Frames -/

/-- A record with its length and its tag, as it stands in the file. -/
def spoolFrame (authenticationKey : Bytes 32) (ordinal : Nat) (encoded : List UInt8) : List UInt8 :=
  bigEndian 4 encoded.length ++
    (encoded ++ (spoolRecordTag mac authenticationKey ordinal (bigEndian 4 encoded.length) encoded).val)

/-- The frames of consecutive records. -/
def spoolFrames (authenticationKey : Bytes 32) : Nat → List (List UInt8) → List UInt8
  | _, [] => []
  | ordinal, encoded :: rest =>
      spoolFrame mac authenticationKey ordinal encoded ++ spoolFrames authenticationKey (ordinal + 1) rest

/-- A record is stored in these bytes. -/
structure Stored (record : T) (encoded : List UInt8) : Prop where
  encoded_eq : codec.toVec record = some encoded
  pos : 0 < encoded.length
  bounded : encoded.length ≤ maximumSpoolRecordBytes

variable {codec mac sha256}

theorem Stored.fromSlice {record : T} {encoded : List UInt8} (h : Stored codec record encoded) :
    (codec.fromSlice encoded).orFail SpoolError.decode = .ok record := by
  rw [codec.fromSlice_toVec h.encoded_eq]
  rfl

theorem RecordSpool.append_eq_ok {spool after : RecordSpool} {record : T} (h : spool.append codec mac record = .ok after) :
    ∃ encoded, Stored codec record encoded ∧ spool.records + 1 < 2 ^ 64 ∧ after = { spool with
      written := spool.written ++ spoolFrame mac spool.authenticationKey spool.records encoded
      digest := spool.digest ++ spoolFrame mac spool.authenticationKey spool.records encoded
      records := spool.records + 1 } := by
  simp only [append, bind_eq_ok, ensure_eq_ok, orFail_eq_ok, Bool.and_eq_true, Bool.not_eq_true',
    List.isEmpty_eq_false_iff, decide_eq_true_eq] at h
  obtain ⟨encoded, hencoded, _, ⟨hfilled, hbound⟩, _, hcount, hafter⟩ := h
  cases hafter
  exact ⟨encoded, ⟨hencoded, List.length_pos_iff.mpr hfilled, hbound⟩, hcount, rfl⟩

theorem RecordSpool.appendAll_eq_ok {records : List T} {spool after : RecordSpool}
    (h : spool.appendAll codec mac records = .ok after) :
    ∃ encodeds, List.Forall₂ (Stored codec) records encodeds ∧
      (encodeds = [] ∨ spool.records + encodeds.length < 2 ^ 64) ∧ after = { spool with
        written := spool.written ++ spoolFrames mac spool.authenticationKey spool.records encodeds
        digest := spool.digest ++ spoolFrames mac spool.authenticationKey spool.records encodeds
        records := spool.records + encodeds.length } := by
  induction records generalizing spool with
  | nil =>
      cases h
      refine ⟨[], .nil, .inl rfl, ?_⟩
      simp only [spoolFrames, List.append_nil, List.length_nil, Nat.add_zero]
  | cons record records ih =>
      rw [appendAll, List.foldlM_cons, bind_eq_ok] at h
      obtain ⟨middle, happend, hrest⟩ := h
      obtain ⟨encoded, hstored, hcount, rfl⟩ := append_eq_ok happend
      obtain ⟨encodeds, hall, hbound, rfl⟩ := ih hrest
      refine ⟨encoded :: encodeds, .cons hstored hall, .inr ?_, ?_⟩
      · rw [List.length_cons]
        rcases hbound with rfl | hbound
        · exact hcount
        · dsimp only at hbound
          omega
      · simp only [spoolFrames, List.append_assoc, List.length_cons, RecordSpool.mk.injEq, true_and, and_true]
        omega

/-! ### One step of the reader -/

theorem Reader.readExact_append {file : Reader} {piece rest : List UInt8} (h : file.data = piece ++ rest) :
    ∃ after, file.readExact piece.length = some (piece, after) ∧ after.data = rest := by
  have hle : piece.length ≤ file.data.length := by
    rw [h, List.length_append]
    exact Nat.le_add_right _ _
  obtain ⟨after, hread, hafter⟩ := file.readExact_of_le hle
  rw [h, List.take_left] at hread
  rw [h, List.drop_left] at hafter
  exact ⟨after, hread, hafter⟩

theorem Reader.data_of_readExact {file after : Reader} {room : Nat} {piece : List UInt8}
    (h : file.readExact room = some (piece, after)) : file.data = piece ++ after.data ∧ piece.length = room := by
  by_cases hle : room ≤ file.data.length
  · obtain ⟨found, hread, hdata⟩ := file.readExact_of_le hle
    rw [hread] at h
    cases h
    exact ⟨by rw [hdata, List.take_append_drop], by rw [List.length_take, min_eq_left hle]⟩
  · rw [file.readExact_of_lt (Nat.not_le.mp hle)] at h
    cases h

theorem read_one (file : Reader) : file.read 1 = (file.data.take 1, (file.read 1).2) ∧
    (file.read 1).2.data = file.data.drop 1 := by
  have hcount : min 1 (file.offer file.calls + 1) = 1 := by omega
  constructor
  · rw [Reader.read, hcount]
  · rw [Reader.read, hcount]

variable (codec mac)

def RecordSpoolReader.behind (reader : RecordSpoolReader) (encoded : List UInt8) (file : Reader) : RecordSpoolReader :=
  { reader with
    file
    observedDigest := reader.observedDigest ++ spoolFrame mac reader.authenticationKey reader.observedRecords encoded
    observedRecords := reader.observedRecords + 1 }

variable {codec mac}

section Behind

variable (reader : RecordSpoolReader) (encoded : List UInt8) (file : Reader)

@[simp] theorem RecordSpoolReader.behind_file : (reader.behind mac encoded file).file = file := rfl

@[simp] theorem RecordSpoolReader.behind_finished : (reader.behind mac encoded file).finished = reader.finished := rfl

@[simp] theorem RecordSpoolReader.behind_key :
    (reader.behind mac encoded file).authenticationKey = reader.authenticationKey := rfl

@[simp] theorem RecordSpoolReader.behind_expectedRecords :
    (reader.behind mac encoded file).expectedRecords = reader.expectedRecords := rfl

@[simp] theorem RecordSpoolReader.behind_expectedDigest :
    (reader.behind mac encoded file).expectedDigest = reader.expectedDigest := rfl

@[simp] theorem RecordSpoolReader.behind_observedRecords :
    (reader.behind mac encoded file).observedRecords = reader.observedRecords + 1 := rfl

@[simp] theorem RecordSpoolReader.behind_observedDigest : (reader.behind mac encoded file).observedDigest =
    reader.observedDigest ++ spoolFrame mac reader.authenticationKey reader.observedRecords encoded := rfl

end Behind

theorem RecordSpoolReader.next_frame (sha256 : List UInt8 → Digest) {reader : RecordSpoolReader} (hopen : reader.finished = false)
    {encoded rest : List UInt8} (hpos : 0 < encoded.length) (hbound : encoded.length ≤ maximumSpoolRecordBytes)
    (hcount : reader.observedRecords + 1 < 2 ^ 64)
    (hfile : reader.file.data = spoolFrame mac reader.authenticationKey reader.observedRecords encoded ++ rest) :
    ∃ file : Reader, file.data = rest ∧ reader.next codec mac sha256 =
      (some ((codec.fromSlice encoded).orFail .decode), reader.behind mac encoded file) := by
  have hvalue : bigEndianValue (bigEndian 4 encoded.length) = encoded.length := by
    apply bigEndianValue_bigEndian
    exact hbound.trans_lt (by decide)
  obtain ⟨first, others, hsplit, hothers⟩ : ∃ first others, bigEndian 4 encoded.length = first :: others ∧
      others.length = 3 := by
    have hlength := bigEndian_length 4 encoded.length
    cases hbytes : bigEndian 4 encoded.length with
    | nil => simp [hbytes] at hlength
    | cons first others => exact ⟨first, others, rfl, by simpa [hbytes] using hlength⟩
  rw [spoolFrame, hsplit, List.cons_append, List.cons_append] at hfile
  obtain ⟨hread, hdata⟩ := read_one reader.file
  rw [hfile, List.drop_one, List.tail_cons, List.append_assoc] at hdata
  rw [hfile] at hread
  obtain ⟨second, hlength, hsecond⟩ := Reader.readExact_append hdata
  rw [List.append_assoc] at hsecond
  obtain ⟨third, hrecord, hthird⟩ := Reader.readExact_append hsecond
  obtain ⟨fourth, htag, hfourth⟩ := Reader.readExact_append hthird
  rw [hothers] at hlength
  rw [Bytes.length_val] at htag
  refine ⟨fourth, hfourth, ?_⟩
  have hguard : (decide (encoded.length ≠ 0) && decide (encoded.length ≤ maximumSpoolRecordBytes)) = true := by
    rw [Bool.and_eq_true, decide_eq_true_eq, decide_eq_true_eq]
    exact ⟨Nat.pos_iff_ne_zero.mp hpos, hbound⟩
  have hrecorded : reader.readRecord codec mac [first] (reader.file.read 1).2 =
      .ok ((codec.fromSlice encoded).orFail .decode, reader.behind mac encoded fourth) := by
    simp only [readRecord, hlength, some_orFail, ok_bind, List.singleton_append, hvalue, hguard, ensure_true, hrecord,
      spoolRecordTagBytes, htag, ← hsplit, beq_self_eq_true, hcount, decide_true]
    rfl
  rw [next, if_neg (by simp [hopen]), hread]
  dsimp only [List.take_succ_cons, List.take_zero]
  rw [hrecorded]

theorem RecordSpoolReader.next_cases (sha256 : List UInt8 → Digest) {reader : RecordSpoolReader} (hopen : reader.finished = false)
    (hfile : reader.file.data ≠ []) :
    (∃ error after, reader.next codec mac sha256 = (some (.error error), after) ∧ after.finished = true) ∨
      ∃ encoded file, encoded.length ≤ maximumSpoolRecordBytes ∧ reader.observedRecords + 1 < 2 ^ 64 ∧
        reader.file.data = spoolFrame mac reader.authenticationKey reader.observedRecords encoded ++ file.data ∧
        reader.next codec mac sha256 =
          (some ((codec.fromSlice encoded).orFail .decode), reader.behind mac encoded file) := by
  obtain ⟨first, more, hsplit⟩ := List.exists_cons_of_ne_nil hfile
  obtain ⟨hread, hdata⟩ := read_one reader.file
  rw [hsplit, List.drop_one, List.tail_cons] at hdata
  rw [hsplit] at hread
  rw [next, if_neg (by simp [hopen]), hread]
  dsimp only [List.take_succ_cons, List.take_zero]
  cases hrecorded : reader.readRecord codec mac [first] (reader.file.read 1).2 with
  | error error => exact .inl ⟨error, _, rfl, rfl⟩
  | ok found =>
      right
      simp only [readRecord, bind_eq_ok, ensure_eq_ok, orFail_eq_ok, Prod.exists, Bool.and_eq_true, decide_eq_true_eq,
        beq_iff_eq] at hrecorded
      obtain ⟨others, second, hlength, _, ⟨_, hbound⟩, encoded, third, hrecord, tag, fourth, htag, _, hsame, _, hcount,
        hfound⟩ := hrecorded
      obtain ⟨hothers, hwidth⟩ := Reader.data_of_readExact hlength
      obtain ⟨hrest, hencoded⟩ := Reader.data_of_readExact hrecord
      obtain ⟨hlast, _⟩ := Reader.data_of_readExact htag
      -- the four bytes of the length are the ones that the writer puts in front of as many bytes
      have hwritten : bigEndian 4 encoded.length = [first] ++ others := by
        have hback := bigEndian_bigEndianValue ([first] ++ others)
        rwa [List.length_append, hwidth, ← hencoded] at hback
      rw [← hwritten] at hsame hfound
      subst hsame
      refine ⟨encoded, fourth, hencoded ▸ hbound, hcount, ?_, ?_⟩
      · have htail : first :: more = bigEndian 4 encoded.length ++ second.data := by
          rw [hwritten, ← hdata, hothers]
          rfl
        rw [hsplit, htail, hrest, hlast, spoolFrame]
        simp only [List.append_assoc]
      · cases hfound
        rfl

/-! ### Whole files -/

theorem RecordSpoolReader.drain_error {reader after : RecordSpoolReader} {error : SpoolError}
    (hnext : reader.next codec mac sha256 = (some (.error error), after)) (hdone : after.finished = true) :
    reader.drain codec mac sha256 2 = some [.error error] := by
  have hend : after.drain codec mac sha256 1 = some [] := by rw [drain, next, if_pos hdone]
  rw [drain, hnext]
  dsimp only
  rw [hend]
  rfl

theorem RecordSpoolReader.drain_frames {records : List T} {encodeds : List (List UInt8)}
    (hstored : List.Forall₂ (Stored codec) records encodeds) {reader : RecordSpoolReader} (hopen : reader.finished = false)
    (hfile : reader.file.data = spoolFrames mac reader.authenticationKey reader.observedRecords encodeds)
    (hcount : reader.expectedRecords = reader.observedRecords + encodeds.length)
    (hbound : encodeds = [] ∨ reader.observedRecords + encodeds.length < 2 ^ 64)
    (hseal : sha256 (reader.observedDigest ++ reader.file.data) = reader.expectedDigest) :
    reader.drain codec mac sha256 (encodeds.length + 1) = some (records.map .ok) := by
  induction hstored generalizing reader with
  | nil =>
      have hread : (reader.file.read 1).1 = [] := (Reader.read_fst_eq_nil Nat.one_ne_zero).mpr hfile
      have hnext : (reader.next codec mac sha256).1 = none := by
        rw [hfile, spoolFrames, List.append_nil] at hseal
        rw [next, if_neg (by simp [hopen])]
        split
        · rw [if_neg]
          exact not_or.mpr ⟨not_not.mpr hcount.symm, not_not.mpr hseal⟩
        · rename_i hother heq
          rw [heq] at hread
          exact absurd hread (by simpa using hother)
      rw [drain]
      split
      · rfl
      · rename_i heq
        rw [heq] at hnext
        cases hnext
  | @cons record encoded records encodeds hfirst _ ih =>
      have hroom : reader.observedRecords + (encodeds.length + 1) < 2 ^ 64 := by
        rcases hbound with hnil | hroom
        · cases hnil
        · exact hroom
      obtain ⟨file, hdata, hnext⟩ := next_frame sha256 hopen hfirst.pos hfirst.bounded (by omega) hfile
      rw [List.length_cons, drain, hnext, hfirst.fromSlice]
      dsimp only
      have hrest : (reader.behind mac encoded file).drain codec mac sha256 (encodeds.length + 1) =
          some (records.map .ok) := by
        apply ih
        · exact hopen
        · exact hdata
        · rw [behind_expectedRecords, behind_observedRecords, hcount, List.length_cons]
          omega
        · right
          rw [behind_observedRecords]
          omega
        · rw [behind_observedDigest, behind_file, behind_expectedDigest, hdata, List.append_assoc, ← spoolFrames, ← hfile,
            hseal]
      rw [hrest]
      rfl

variable (codec mac)

/-- What the writer of some records authenticates. -/
def spoolMessages (records : List T) : List (List UInt8) :=
  (records.filterMap codec.toVec).mapIdx fun ordinal encoded => spoolMessage ordinal (bigEndian 4 encoded.length) encoded

/-- Nobody but the writer made tags under the key: a frame of the file whose tag is right has a message that the writer
authenticated. -/
def Unforged (authenticationKey : Bytes 32) (messages : List (List UInt8)) (content : List UInt8) : Prop :=
  ∀ ordinal < 2 ^ 64, ∀ encoded : List UInt8, encoded.length ≤ maximumSpoolRecordBytes →
    spoolFrame mac authenticationKey ordinal encoded <:+: content →
      spoolMessage ordinal (bigEndian 4 encoded.length) encoded ∈ messages

variable {codec mac}

theorem spoolMessage_inj {left right : Nat} {encoded other : List UInt8} (hleft : left < 2 ^ 64) (hright : right < 2 ^ 64)
    (h : spoolMessage left (bigEndian 4 encoded.length) encoded = spoolMessage right (bigEndian 4 other.length) other) :
    left = right ∧ encoded = other := by
  simp only [spoolMessage, List.append_assoc] at h
  obtain ⟨hordinal, hrest⟩ := @bigEndian_append_inj 8 _ _ _ _ hleft hright (List.append_cancel_left h)
  exact ⟨hordinal, (List.append_inj hrest (by simp)).2⟩

theorem filterMap_toVec {records : List T} {encodeds : List (List UInt8)}
    (h : List.Forall₂ (Stored codec) records encodeds) : records.filterMap codec.toVec = encodeds := by
  induction h with
  | nil => rfl
  | cons hfirst _ ih => rw [List.filterMap_cons, hfirst.encoded_eq, ih]

/-- Of a file that differs from what was written behind the records read so far, the reader gives back some more of the
records and then an error. -/
theorem RecordSpoolReader.drain_tampered {records : List T} {encodeds : List (List UInt8)}
    (hstored : List.Forall₂ (Stored codec) records encodeds) {reader : RecordSpoolReader} (hopen : reader.finished = false)
    (hcount : reader.expectedRecords = reader.observedRecords + encodeds.length)
    (hdiffers : reader.file.data ≠ spoolFrames mac reader.authenticationKey reader.observedRecords encodeds)
    (hauthentic : ∀ ordinal < 2 ^ 64, reader.observedRecords ≤ ordinal → ∀ encoded : List UInt8,
      encoded.length ≤ maximumSpoolRecordBytes →
        spoolFrame mac reader.authenticationKey ordinal encoded <:+: reader.file.data →
          encodeds[ordinal - reader.observedRecords]? = some encoded) :
    ∃ fuel count error, count ≤ records.length ∧
      reader.drain codec mac sha256 fuel = some ((records.take count).map .ok ++ [.error error]) := by
  induction hstored generalizing reader with
  | nil =>
      refine ⟨2, 0, ?_⟩
      rcases next_cases sha256 hopen hdiffers with ⟨error, after, hnext, hdone⟩ | ⟨encoded, file, hbound,
        hroom, hfile, _⟩
      · exact ⟨error, Nat.zero_le _, drain_error hnext hdone⟩
      · have hforged := hauthentic reader.observedRecords (Nat.lt_of_succ_lt hroom) (Nat.le_refl _) encoded hbound
          ⟨[], file.data, by rw [List.nil_append, hfile]⟩
        cases hforged
  | @cons record encoded records encodeds hfirst _ ih =>
      by_cases hempty : reader.file.data = []
      · -- the file ends in front of this record: the count is wrong
        refine ⟨2, 0, .sealDiffers, Nat.zero_le _, ?_⟩
        have hread : (reader.file.read 1).1 = [] := (Reader.read_fst_eq_nil Nat.one_ne_zero).mpr hempty
        have hnext : reader.next codec mac sha256 =
            (some (.error .sealDiffers), { reader with file := (reader.file.read 1).2, finished := true }) := by
          rw [next, if_neg (by simp [hopen])]
          split
          · rename_i heq
            rw [if_pos, heq]
            left
            rw [hcount, List.length_cons]
            omega
          · rename_i hother heq
            rw [heq] at hread
            exact absurd hread (by simpa using hother)
        exact drain_error hnext rfl
      rcases next_cases sha256 hopen hempty with ⟨error, after, hnext, hdone⟩ | ⟨found, file, hbound, hroom,
        hfile, hnext⟩
      · exact ⟨2, 0, error, Nat.zero_le _, drain_error hnext hdone⟩
      · have hsame := hauthentic reader.observedRecords (Nat.lt_of_succ_lt hroom) (Nat.le_refl _) found hbound
          ⟨[], file.data, by rw [List.nil_append, hfile]⟩
        rw [Nat.sub_self, List.getElem?_cons_zero] at hsame
        cases hsame
        have hopen' : (reader.behind mac encoded file).finished = false := hopen
        have hleft : (reader.behind mac encoded file).expectedRecords =
            (reader.behind mac encoded file).observedRecords + encodeds.length := by
          rw [behind_expectedRecords, behind_observedRecords, hcount, List.length_cons]
          omega
        have hother : (reader.behind mac encoded file).file.data ≠ spoolFrames mac
            (reader.behind mac encoded file).authenticationKey (reader.behind mac encoded file).observedRecords encodeds := by
          intro heq
          rw [behind_file, behind_key, behind_observedRecords] at heq
          apply hdiffers
          rw [hfile, heq, spoolFrames]
        obtain ⟨fuel, count, error, hle, hrest⟩ := ih hopen' hleft hother fun ordinal hordinal hafter other hlength hinfix => by
          rw [behind_observedRecords] at hafter ⊢
          have hinside : spoolFrame mac reader.authenticationKey ordinal other <:+: reader.file.data := by
            rw [hfile]
            exact hinfix.trans (List.suffix_append _ _).isInfix
          have hfound := hauthentic ordinal hordinal (by omega) other hlength hinside
          rw [show ordinal - reader.observedRecords = ordinal - (reader.observedRecords + 1) + 1 by omega,
            List.getElem?_cons_succ] at hfound
          exact hfound
        refine ⟨fuel + 1, count + 1, error, Nat.succ_le_succ hle, ?_⟩
        rw [drain, hnext, hfirst.fromSlice]
        dsimp only
        rw [hrest]
        rfl

variable (codec mac sha256)

/-- What a reader gives back of a spool of some records, however the file system cuts its file into pieces. -/
structure SpoolIntegrity (records : List T) (spool : RecordSpool) : Prop where
  /-- The file that was written holds exactly the records. -/
  complete : ∀ file : Reader, file.data = spool.written →
    ∃ fuel, (spool.finish sha256 file).drain codec mac sha256 fuel = some (records.map .ok)
  /-- Any other file without foreign tags gives back some of the first records, and then an error. -/
  tampered : ∀ file : Reader, file.data ≠ spool.written →
    Unforged mac spool.authenticationKey (spoolMessages codec records) file.data →
      ∃ fuel count error, count ≤ records.length ∧ (spool.finish sha256 file).drain codec mac sha256 fuel =
        some ((records.take count).map .ok ++ [.error error])

variable {codec mac sha256}

/-- Every spool that was written without an error keeps its records. -/
theorem spool_integrity (sha256 : List UInt8 → Digest) {authenticationKey : Bytes 32} {records : List T} {spool : RecordSpool}
    (h : (RecordSpool.create authenticationKey).appendAll codec mac records = .ok spool) :
    SpoolIntegrity codec mac sha256 records spool := by
  obtain ⟨encodeds, hstored, hbound, rfl⟩ := RecordSpool.appendAll_eq_ok h
  simp only [RecordSpool.create, List.nil_append, Nat.zero_add] at hbound ⊢
  refine ⟨?_, ?_⟩
  · intro file hfile
    refine ⟨encodeds.length + 1, RecordSpoolReader.drain_frames hstored rfl hfile (Nat.zero_add _).symm ?_ ?_⟩
    · exact hbound.imp_right fun hroom => (Nat.zero_add _).trans_lt hroom
    · rw [RecordSpool.finish, List.nil_append]
      dsimp only
      rw [hfile]
  · intro file hfile hunforged
    refine RecordSpoolReader.drain_tampered hstored rfl (Nat.zero_add _).symm hfile ?_
    intro ordinal hordinal _ encoded hlength hinfix
    have hmem := hunforged ordinal hordinal encoded hlength hinfix
    rw [spoolMessages, filterMap_toVec hstored, List.mem_mapIdx] at hmem
    obtain ⟨index, hindex, hmessage⟩ := hmem
    have hroom : index < 2 ^ 64 := by
      rcases hbound with rfl | hroom
      · cases hindex
      · exact hindex.trans hroom
    obtain ⟨rfl, hencoded⟩ := spoolMessage_inj hroom hordinal hmessage
    exact List.getElem?_eq_some_iff.mpr ⟨hindex, hencoded⟩

end Spools

namespace SpoolSample

/-- Strings, as `serde_json` stores them. -/
def strings : RecordCodec { text : List UInt8 // Utf8.valid text = true } where
  toVec text := some (StrictJson.quote text.val)
  fromSlice encoded :=
    match StrictJson.scanString encoded with
    | some (text, rest) =>
        if Json.skipBlank rest = [] then if h : Utf8.valid text = true then some ⟨text, h⟩ else none else none
    | none => none
  fromSlice_toVec := by
    intro text encoded h
    cases h
    have hscan := StrictJson.scanString_quote text.property []
    rw [List.append_nil] at hscan
    simp [hscan, text.property, Json.skipBlank]

def key : Bytes 32 := .ofByte 31 7

def mac (authenticationKey : Bytes 32) (message : List UInt8) : Bytes 32 :=
  polynomialDigest (authenticationKey.val ++ message)

theorem valid_first : Utf8.valid (utf8 "a") = true := by decide

theorem valid_second : Utf8.valid (utf8 "b") = true := by decide

def records : List { text : List UInt8 // Utf8.valid text = true } := [⟨utf8 "a", valid_first⟩, ⟨utf8 "b", valid_second⟩]

end SpoolSample

/-- Two records, and their file cut inside of the first one. -/
theorem spool_integrity_cut :
    ∃ spool, (RecordSpool.create SpoolSample.key).appendAll SpoolSample.strings SpoolSample.mac SpoolSample.records =
        .ok spool ∧
      SpoolIntegrity SpoolSample.strings SpoolSample.mac polynomialDigest SpoolSample.records spool ∧
        ∀ file : Reader, file.data = spool.written.take 20 →
          ∃ fuel count error, count ≤ 2 ∧
            (spool.finish polynomialDigest file).drain SpoolSample.strings SpoolSample.mac polynomialDigest fuel =
              some ((SpoolSample.records.take count).map .ok ++ [.error error]) := by
  obtain ⟨spool, hspool, hlong⟩ : ∃ spool, (RecordSpool.create SpoolSample.key).appendAll SpoolSample.strings
      SpoolSample.mac SpoolSample.records = .ok spool ∧ 20 < spool.written.length := by
    refine ⟨_, rfl, ?_⟩
    decide +kernel
  have hintegrity := spool_integrity polynomialDigest hspool
  refine ⟨spool, hspool, hintegrity, ?_⟩
  intro file hfile
  have hlength : file.data.length = 20 := by rw [hfile, List.length_take, min_eq_left hlong.le]
  apply hintegrity.tampered file
  · intro heq
    rw [heq] at hlength
    omega
  · -- a frame with its tag takes more than 20 bytes
    intro ordinal _ encoded _ hinfix
    have hle := hinfix.length_le
    rw [spoolFrame, List.length_append, List.length_append, bigEndian_length, Bytes.length_val, hlength] at hle
    omega

end Skydriver
