import Skydriver.Lib.JsonCodec
import Skydriver.Journal.Plan

/-!
# Durable records

Each record of a journal is one JSON object in an envelope with the SHA-256 of its text.  What is read back is what was
written, up to what the encoding does to it: a string comes back as UTF-8, and a slice that may be left out comes back
as `nil` where it was empty.
-/

namespace Skydriver.Journal

open Checked Driver Json

/-! ### The members of the plan types -/

def supportMode : Codec SupportMode := .text SupportMode.text SupportMode.ofText
def partOrdering : Codec PartOrdering := .text PartOrdering.text PartOrdering.ofText
def direction : Codec Direction := .text Direction.text Direction.ofText

def readCapabilities : Record ReadCapabilities :=
  .map (fun value => (value.complete, value.range, value.maxParallelRanges, value.maximumRangeBytes))
    (fun (complete, range, maxParallelRanges, maximumRangeBytes) =>
      { complete, range, maxParallelRanges, maximumRangeBytes }) <|
  .both (.field (utf8 "complete") supportMode) <|
  .both (.field (utf8 "range") supportMode) <|
  .both (.field (utf8 "max_parallel_ranges") .uint32) <|
  .fieldUnless (· == 0) (utf8 "maximum_range_bytes") .uint64

def writeCapabilities : Record WriteCapabilities :=
  .map
    (fun value =>
      (value.complete, value.resume, value.parallelParts, value.partOrdering, value.maxParallelParts,
        value.minimumNonFinalPartBytes, value.maximumPartBytes, value.maximumParts, value.uploadSessionTTLSeconds))
    (fun (complete, resume, parallelParts, partOrdering, maxParallelParts, minimumNonFinalPartBytes, maximumPartBytes,
        maximumParts, uploadSessionTTLSeconds) =>
      { complete, resume, parallelParts, partOrdering, maxParallelParts, minimumNonFinalPartBytes, maximumPartBytes,
        maximumParts, uploadSessionTTLSeconds }) <|
  .both (.field (utf8 "complete") supportMode) <|
  .both (.field (utf8 "resume") supportMode) <|
  .both (.field (utf8 "parallel_parts") supportMode) <|
  .both (.field (utf8 "part_ordering") partOrdering) <|
  .both (.field (utf8 "max_parallel_parts") .uint32) <|
  .both (.fieldUnless (· == 0) (utf8 "minimum_non_final_part_bytes") .uint64) <|
  .both (.fieldUnless (· == 0) (utf8 "maximum_part_bytes") .uint64) <|
  .both (.fieldUnless (· == 0) (utf8 "maximum_parts") .uint32) <|
  .fieldUnless (· == 0) (utf8 "upload_session_ttl_seconds") .uint64

def integrityCapabilities : Record IntegrityCapabilities :=
  .map (fun value => (value.strongUploadChecksum, value.algorithms, value.requiresReadback))
    (fun (strongUploadChecksum, algorithms, requiresReadback) =>
      { strongUploadChecksum, algorithms, requiresReadback }) <|
  .both (.field (utf8 "strong_upload_checksum") supportMode) <|
  .both (.fieldUnless (fun algorithms => (algorithms.getD []).isEmpty) (utf8 "algorithms") (.slice .string)) <|
  .field (utf8 "requires_readback") .bool

def capabilities : Record Capabilities :=
  .map
    (fun value =>
      (value.read, value.write, value.delete, value.inventory, value.serverSideCopy, value.integrity,
        value.maximumObjectBytes, value.preferredPartBytes, value.safeConcurrency))
    (fun (read, write, delete, inventory, serverSideCopy, integrity, maximumObjectBytes, preferredPartBytes,
        safeConcurrency) =>
      { read, write, delete, inventory, serverSideCopy, integrity, maximumObjectBytes, preferredPartBytes,
        safeConcurrency }) <|
  .both (.field (utf8 "read") readCapabilities.codec) <|
  .both (.field (utf8 "write") writeCapabilities.codec) <|
  .both (.field (utf8 "delete") supportMode) <|
  .both (.field (utf8 "inventory") supportMode) <|
  .both (.field (utf8 "server_side_copy") supportMode) <|
  .both (.field (utf8 "integrity") integrityCapabilities.codec) <|
  .both (.fieldUnless (· == 0) (utf8 "maximum_object_bytes") .uint64) <|
  .both (.fieldUnless (· == 0) (utf8 "preferred_part_bytes") .uint64) <|
  .field (utf8 "safe_concurrency") .uint32

def descriptor : Record Descriptor :=
  .map (fun value => (value.id, value.kind, value.summary, value.capabilities))
    (fun (id, kind, summary, capabilities) => { id, kind, summary, capabilities }) <|
  .both (.field (utf8 "id") .string) <|
  .both (.field (utf8 "kind") .string) <|
  .both (.field (utf8 "summary") .string) <|
  .field (utf8 "capabilities") Journal.capabilities.codec

def sourceIdentity : Record SourceIdentity :=
  .map (fun value => (value.kind, value.reference, value.version, value.sizeBytes, value.checksum))
    (fun (kind, reference, version, sizeBytes, checksum) => { kind, reference, version, sizeBytes, checksum }) <|
  .both (.field (utf8 "kind") .string) <|
  .both (.field (utf8 "reference") .string) <|
  .both (.field (utf8 "version") .string) <|
  .both (.field (utf8 "size_bytes") .uint64) <|
  .field (utf8 "checksum") .string

def plannedPart : Record PlannedPart :=
  .map (fun value => (value.number, value.offset, value.length, value.checksum))
    (fun (number, offset, length, checksum) => { number, offset, length, checksum }) <|
  .both (.field (utf8 "number") .uint32) <|
  .both (.field (utf8 "offset") .uint64) <|
  .both (.field (utf8 "length") .uint64) <|
  .field (utf8 "checksum") .string

def plannedBlock : Record PlannedBlock :=
  .map (fun value => (value.number, value.offset, value.length))
    (fun (number, offset, length) => { number, offset, length }) <|
  .both (.field (utf8 "number") .uint32) <|
  .both (.field (utf8 "offset") .uint64) <|
  .field (utf8 "length") .uint64

def locator : Record Locator :=
  .map (fun value => (value.storageKey, value.nativeID, value.version, value.etag))
    (fun (storageKey, nativeID, version, etag) => { storageKey, nativeID, version, etag }) <|
  .both (.field (utf8 "storage_key") .string) <|
  .both (.fieldUnless (·.isEmpty) (utf8 "native_id") .string) <|
  .both (.fieldUnless (·.isEmpty) (utf8 "version") .string) <|
  .fieldUnless (·.isEmpty) (utf8 "etag") .string

def object : Record Object :=
  .map (fun value => (value.locator, value.sizeBytes)) (fun (locator, sizeBytes) => { locator, sizeBytes }) <|
  .both (.field (utf8 "locator") Journal.locator.codec) <|
  .field (utf8 "size_bytes") .uint64

def replacement : Record Driver.Replacement :=
  .map (fun value => (value.driverID, value.driverKind, value.reason))
    (fun (driverID, driverKind, reason) => { driverID, driverKind, reason }) <|
  .both (.field (utf8 "driver_id") .string) <|
  .both (.field (utf8 "driver_kind") .string) <|
  .field (utf8 "reason") .string

def warning : Record Warning :=
  .map
    (fun value =>
      (value.code, value.severity, value.driverID, value.driverKind, value.feature, value.correctnessImpact,
        value.performanceImpact, value.fallback, value.replacements))
    (fun (code, severity, driverID, driverKind, feature, correctnessImpact, performanceImpact, fallback, replacements) =>
      { code, severity, driverID, driverKind, feature, correctnessImpact, performanceImpact, fallback, replacements }) <|
  .both (.field (utf8 "code") .string) <|
  .both (.field (utf8 "severity") .string) <|
  .both (.field (utf8 "driver_id") .string) <|
  .both (.field (utf8 "driver_kind") .string) <|
  .both (.field (utf8 "feature") .string) <|
  .both (.field (utf8 "correctness_impact") .string) <|
  .both (.field (utf8 "performance_impact") .string) <|
  .both (.field (utf8 "fallback") .string) <|
  .field (utf8 "replacements") replacement.codec.list

def uploadPlan : Record UploadPlan :=
  .map
    (fun value =>
      (value.driver, value.source, value.storageKey, value.sizeBytes, value.checksum, value.partBytes, value.parts,
        value.warnings))
    (fun (driver, source, storageKey, sizeBytes, checksum, partBytes, parts, warnings) =>
      { driver, source, storageKey, sizeBytes, checksum, partBytes, parts, warnings }) <|
  .both (.field (utf8 "driver") descriptor.codec) <|
  .both (.field (utf8 "source") sourceIdentity.codec) <|
  .both (.field (utf8 "storage_key") .string) <|
  .both (.field (utf8 "size_bytes") .uint64) <|
  .both (.field (utf8 "checksum") .string) <|
  .both (.field (utf8 "part_bytes") .uint64) <|
  .both (.field (utf8 "parts") plannedPart.codec.list) <|
  .field (utf8 "warnings") warning.codec.list

def downloadPlan : Record DownloadPlan :=
  .map
    (fun value =>
      (value.driver, value.object, value.checksum, value.destination, value.stagingPath, value.blockBytes, value.blocks,
        value.warnings))
    (fun (driver, object, checksum, destination, stagingPath, blockBytes, blocks, warnings) =>
      { driver, object, checksum, destination, stagingPath, blockBytes, blocks, warnings }) <|
  .both (.field (utf8 "driver") descriptor.codec) <|
  .both (.field (utf8 "object") Journal.object.codec) <|
  .both (.field (utf8 "checksum") .string) <|
  .both (.field (utf8 "destination") .string) <|
  .both (.field (utf8 "staging_path") .string) <|
  .both (.field (utf8 "block_bytes") .uint64) <|
  .both (.field (utf8 "blocks") plannedBlock.codec.list) <|
  .field (utf8 "warnings") warning.codec.list

def planRecord : Record PlanRecord :=
  .map (fun value => (value.schema, value.id, value.direction, value.createdAt, value.upload, value.download))
    (fun (schema, id, direction, createdAt, upload, download) =>
      { schema, id, direction, createdAt, upload, download }) <|
  .both (.field (utf8 "schema") .string) <|
  .both (.field (utf8 "id") .string) <|
  .both (.field (utf8 "direction") Journal.direction) <|
  .both (.field (utf8 "created_at") .int64) <|
  .both (.fieldUnless (·.isNone) (utf8 "upload") uploadPlan.pointer) <|
  .fieldUnless (·.isNone) (utf8 "download") downloadPlan.pointer

/-! ### Envelopes -/

def maximumRecordBytes : Nat := 67108864

def digestBytes (prims : Primitives) (payload : List UInt8) : Text := hexEncode (prims.sha256 payload).val

/-- The members of an envelope.  Its payload is written as the text that it is: what was just written has no blanks and
nothing left to escape. -/
def envelopeMembers (digest : Text) (payload : Value) : List (Text × Value) :=
  [(utf8 "schema", .string schema), (utf8 "digest", .string digest), (utf8 "payload", payload)]

variable {α : Type}

/-- The text of a record and the digest of its payload. -/
def encodeEnvelope (prims : Primitives) (codec : Codec α) (value : α) : List UInt8 × Text :=
  let payload := codec.encode value
  let digest := digestBytes prims (render payload)
  (render (.object (envelopeMembers digest payload)) ++ [0x0A], digest)

/-- `decodeStrictJSON`: one value, and blanks behind it. -/
def decodeStrictJSON (codec : Codec α) (text : List UInt8) : Option α := do
  let value ← parse text
  codec.read (some value)

/-- The text of the last member of a name; none is the empty text. -/
def rawMember (name : Text) (members : List (Text × List UInt8)) : List UInt8 :=
  ((members.reverse.find? fun member => member.1 == name).map (·.2)).getD []

def stringMember (name : Text) (members : List (Text × List UInt8)) : Option Text :=
  if rawMember name members = [] then some [] else decodeStrictJSON .string (rawMember name members)

/-- The record in a file of a journal and the digest of its payload. -/
def readEnvelope (prims : Primitives) (codec : Codec α) (content : List UInt8) : Except JournalError (α × Text) := do
  ensure (.corrupt "record has invalid file identity") (content.length != 0 && content.length ≤ maximumRecordBytes)
  let members ← (parseMembers content).orFail (.corrupt "decode record")
  ensure (.corrupt "decode record")
    (members.all fun member => [utf8 "schema", utf8 "digest", utf8 "payload"].contains member.1)
  let found ← (stringMember (utf8 "schema") members).orFail (.corrupt "decode record")
  let digest ← (stringMember (utf8 "digest") members).orFail (.corrupt "decode record")
  let payload := rawMember (utf8 "payload") members
  ensure (.corrupt "record digest differs") (!(found != schema || digestBytes prims payload != digest))
  let value ← (decodeStrictJSON codec payload).orFail (.corrupt "decode payload")
  .ok (value, digest)

theorem decodeStrictJSON_render (codec : Codec α) (value : α) :
    decodeStrictJSON codec (render (codec.encode value)) = some (codec.stored value) := by
  have hparse : parse (render (codec.encode value)) = some (coerced (codec.encode value)) := by
    have hblank := parse_render (codec.encode value) (show skipBlank [] = [] from rfl) stops_nil
    rwa [List.append_nil] at hblank
  rw [decodeStrictJSON, hparse]
  exact codec.read_encode value

theorem coerce_digestBytes (prims : Primitives) (payload : List UInt8) :
    Utf8.coerce (digestBytes prims payload) = digestBytes prims payload :=
  Utf8.coerce_ascii (hexEncode_ascii _)

theorem stringMember_render {name : Text} {members : List (Text × List UInt8)} {text : Text}
    (hmember : rawMember name members = render (.string text)) :
    stringMember name members = some (Utf8.coerce text) := by
  have hne : render (.string text) ≠ [] := List.ne_nil_of_length_pos (render_length_pos _)
  rw [stringMember, hmember, if_neg hne]
  exact decodeStrictJSON_render .string text

theorem parseMembers_envelope (digest : Text) (payload : Value) :
    parseMembers (render (.object (envelopeMembers digest payload)) ++ [0x0A]) =
      some [(utf8 "schema", render (.string schema)), (utf8 "digest", render (.string digest)),
        (utf8 "payload", render payload)] := by
  have hschema : Utf8.coerce (utf8 "schema") = utf8 "schema" := by decide
  have hdigest : Utf8.coerce (utf8 "digest") = utf8 "digest" := by decide
  have hpayload : Utf8.coerce (utf8 "payload") = utf8 "payload" := by decide
  have hblanks : skipBlank [0x0A] = [] := by decide
  rw [parseMembers_render _ hblanks]
  simp only [envelopeMembers, List.map_cons, List.map_nil, hschema, hdigest, hpayload]

theorem rawMember_envelope (schemaText digestText payloadText : List UInt8) :
    let members := [(utf8 "schema", schemaText), (utf8 "digest", digestText), (utf8 "payload", payloadText)]
    rawMember (utf8 "schema") members = schemaText ∧ rawMember (utf8 "digest") members = digestText ∧
      rawMember (utf8 "payload") members = payloadText := by
  have hds : (utf8 "digest" == utf8 "schema") = false := by decide
  have hps : (utf8 "payload" == utf8 "schema") = false := by decide
  have hpd : (utf8 "payload" == utf8 "digest") = false := by decide
  simp [rawMember, hds, hps, hpd]

theorem readEnvelope_encodeEnvelope (prims : Primitives) (codec : Codec α) (value : α)
    (hsize : (encodeEnvelope prims codec value).1.length ≤ maximumRecordBytes) :
    readEnvelope prims codec (encodeEnvelope prims codec value).1 =
      .ok (codec.stored value, (encodeEnvelope prims codec value).2) := by
  have hpositive : ((encodeEnvelope prims codec value).1.length != 0) = true := by
    simp [encodeEnvelope]
  have hdigest := coerce_digestBytes prims (render (codec.encode value))
  have hschema : Utf8.coerce schema = schema := by decide
  obtain ⟨hrawSchema, hrawDigest, hrawPayload⟩ := rawMember_envelope (render (.string schema))
    (render (.string (digestBytes prims (render (codec.encode value))))) (render (codec.encode value))
  have hfound := stringMember_render hrawSchema
  have hfoundDigest := stringMember_render hrawDigest
  rw [hschema] at hfound
  rw [hdigest] at hfoundDigest
  rw [readEnvelope, hpositive, decide_eq_true hsize]
  dsimp only [encodeEnvelope]
  rw [parseMembers_envelope]
  simp [hfound, hfoundDigest, hrawPayload, decodeStrictJSON_render]

end Skydriver.Journal
