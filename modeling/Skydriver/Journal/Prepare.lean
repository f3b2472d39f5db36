import Skydriver.Lib.Words
import Skydriver.Journal.Envelope

/-!
# Preparing and admitting a transfer

Preparation inspects the source or the object once, fixes the layout, and writes the plan.  Every later execution reads
the plan back, and goes on only where the driver and the source are still what the plan says.
-/

namespace Skydriver.Journal

open Checked Driver Json

def defaultPartBytes : UInt64 := 67108864
def defaultBlockBytes : UInt64 := 16777216
/-- `math.MaxInt64`. -/
def maxInt64 : UInt64 := 9223372036854775807

structure SourceMetadata where
  kind : Text
  reference : Text
  version : Text
  sizeBytes : UInt64
deriving DecidableEq, Repr

/-- What a replayable source answers during one inspection: its metadata before and after the hashing, and the bytes that
each range delivers. -/
structure ReplayableSource where
  before : Except JournalError SourceMetadata
  after : Except JournalError SourceMetadata
  openRange : UInt64 → UInt64 → Except JournalError (List UInt8)

/-! ### Inspection of a source -/

/-- The parts from an offset on, and all bytes that were read for them. -/
def hashPartsFrom (prims : Primitives) (source : ReplayableSource) (sizeBytes partBytes : UInt64)
    (hpart : partBytes ≠ 0) (offset : UInt64) (number : UInt32) :
    Except JournalError (List PlannedPart × List UInt8) :=
  if _h : offset < sizeBytes then do
    let length := min partBytes (sizeBytes - offset)
    let stream ← source.openRange offset length
    ensure (.integrity "hash source part") (stream.length == length.toNat)
    let (parts, bytes) ← hashPartsFrom prims source sizeBytes partBytes hpart (offset + length) (number + 1)
    .ok ({ number, offset, length, checksum := digestBytes prims stream } :: parts, stream ++ bytes)
  else .ok ([], [])
termination_by sizeBytes.toNat - offset.toNat
decreasing_by exact Words.rest_lt hpart _h

def hashSourceRanges (prims : Primitives) (source : ReplayableSource) (sizeBytes partBytes : UInt64) :
    Except JournalError (List PlannedPart × Text) :=
  if sizeBytes = 0 then .ok ([], digestBytes prims [])
  else if hpart : partBytes = 0 then .error (.invalidPlan "part size must be positive")
  else do
    let (parts, bytes) ← hashPartsFrom prims source sizeBytes partBytes hpart 0 1
    .ok (parts, digestBytes prims bytes)

def inspectSource (prims : Primitives) (source : ReplayableSource) (partBytes : UInt64) :
    Except JournalError (SourceIdentity × List PlannedPart) := do
  let before ← source.before.mapError fun _ => .input "inspect source before hashing"
  let (parts, checksum) ← hashSourceRanges prims source before.sizeBytes partBytes
  let after ← source.after.mapError fun _ => .input "inspect source after hashing"
  ensure .sourceChanged (before == after)
  let identity : SourceIdentity :=
    { kind := before.kind, reference := before.reference, version := before.version, sizeBytes := before.sizeBytes,
      checksum }
  identity.validate
  .ok (identity, parts)

/-! ### Layouts -/

def divideRoundUp (value divisor : UInt64) : UInt64 :=
  if value % divisor ≠ 0 then value / divisor + 1 else value / divisor

def choosePartBytes (sizeBytes : UInt64) (capabilities : Capabilities) (requested : UInt64) :
    Except JournalError UInt64 := do
  ensure (.invalidPlan "source exceeds driver complete-object limit")
    (!(capabilities.maximumObjectBytes != 0 && sizeBytes > capabilities.maximumObjectBytes))
  ensure (.invalidPlan "source exceeds local journal I/O limit") (!(sizeBytes > maxInt64))
  if sizeBytes = 0 then .ok 0
  else do
    let write := capabilities.write
    let partBytes := if requested = 0 then capabilities.preferredPartBytes else requested
    let partBytes := if partBytes = 0 then defaultPartBytes else partBytes
    ensure (.invalidPlan "requested part size is outside driver limits")
      (!(write.resume.available && (requested != 0 &&
        (requested < write.minimumNonFinalPartBytes || requested > write.maximumPartBytes))))
    let partBytes :=
      if write.resume.available then min (max partBytes write.minimumNonFinalPartBytes) write.maximumPartBytes
      else partBytes
    let maximumParts := if write.resume.available then min maximumPlanPieces write.maximumParts else maximumPlanPieces
    let partBytes := max partBytes (divideRoundUp sizeBytes maximumParts.toUInt64)
    ensure (.invalidPlan "object cannot fit within driver maximum part count")
      (!(write.resume.available && partBytes > write.maximumPartBytes))
    .ok partBytes

def chooseBlockBytes (sizeBytes : UInt64) (capabilities : Capabilities) (requested : UInt64) :
    Except JournalError UInt64 := do
  ensure (.invalidPlan "object exceeds local journal I/O limit") (!(sizeBytes > maxInt64))
  if sizeBytes = 0 then .ok 0
  else do
    let blockBytes := if requested = 0 then defaultBlockBytes else requested
    let maximumRange := capabilities.read.maximumRangeBytes
    let limited := capabilities.read.range.available && maximumRange != 0
    ensure (.invalidPlan "requested block exceeds driver range limit") (!(limited && requested > maximumRange))
    let blockBytes := if limited then min blockBytes maximumRange else blockBytes
    let blockBytes := max blockBytes (divideRoundUp sizeBytes maximumPlanPieces.toUInt64)
    ensure (.invalidPlan "object cannot fit journal blocks within range limit") (!(limited && blockBytes > maximumRange))
    .ok blockBytes

def blocksFrom (sizeBytes blockBytes : UInt64) (hblock : blockBytes ≠ 0) (offset : UInt64) (number : UInt32) :
    List PlannedBlock :=
  if _h : offset < sizeBytes then
    let length := min blockBytes (sizeBytes - offset)
    { number, offset, length } :: blocksFrom sizeBytes blockBytes hblock (offset + length) (number + 1)
  else []
termination_by sizeBytes.toNat - offset.toNat
decreasing_by exact Words.rest_lt hblock _h

def buildBlocks (sizeBytes blockBytes : UInt64) : Except JournalError (List PlannedBlock) :=
  if sizeBytes = 0 then .ok []
  else if hblock : blockBytes = 0 then .error (.invalidPlan "block size must be positive")
  else do
    let blocks := blocksFrom sizeBytes blockBytes hblock 0 1
    ensure (.invalidPlan "download exceeds maximum journal block count") (!(blocks.length > maximumPlanPieces.toNat))
    .ok blocks

/-! ### Preparation -/

structure UploadOptions where
  partBytes : UInt64
  requireResumable : Bool
  requireParallel : Bool
  requireStrongChecksum : Bool
  alternatives : List Descriptor

structure DownloadOptions where
  blockBytes : UInt64
  requireRange : Bool
  requireParallel : Bool
  alternatives : List Descriptor

def requirementLevel (required : Bool) : RequirementLevel := if required then .required else .preferred

def uploadRequirements (options : UploadOptions) : List Requirement :=
  [{ feature := .resumableWrite, level := requirementLevel options.requireResumable },
    { feature := .parallelWrite, level := requirementLevel options.requireParallel },
    { feature := .strongUploadChecksum, level := requirementLevel options.requireStrongChecksum }]

def downloadRequirements (options : DownloadOptions) : List Requirement :=
  [{ feature := .rangeRead, level := requirementLevel options.requireRange },
    { feature := .parallelRangeRead, level := requirementLevel options.requireParallel }]

/-- The plan of a new journal as its file holds it. -/
def storePlan (prims : Primitives) (plan : PlanRecord) : Except JournalError (List UInt8) := do
  plan.validate
  let encoded := (encodeEnvelope prims planRecord.codec plan).1
  ensure (.invalidStore "record exceeds maximum size") (!(encoded.length > maximumRecordBytes))
  .ok encoded

/-- The plan that a file of a journal holds, and its digest. -/
def loadPlan (prims : Primitives) (content : List UInt8) : Except JournalError (PlanRecord × Text) := do
  let (plan, digest) ← readEnvelope prims planRecord.codec content
  plan.validate.mapError .corruptPlan
  .ok (plan, digest)

/-- The upload plan of a fresh journal with the given random identity at the given time. -/
def prepareUpload (prims : Primitives) (handle : Handle) (source : ReplayableSource) (storageKey : Text)
    (options : UploadOptions) (journalID : Identity) (now : Int64) : Except JournalError PlanRecord := do
  handle.validate.mapError (.driver "validate upload driver")
  ensure (.invalidPlan "selected driver cannot write complete objects") handle.hasWriter
  ensure (.invalidPlan "destination storage key is required") (!isBlankText storageKey)
  let metadata ← source.before.mapError fun _ => .input "inspect upload source metadata"
  let partBytes ← choosePartBytes metadata.sizeBytes handle.descriptor.capabilities options.partBytes
  let (identity, parts) ← inspectSource prims source partBytes
  let warnings ← (assess handle.descriptor (uploadRequirements options) options.alternatives).mapError
    (.driver "assess upload driver")
  .ok
    { schema, id := hexEncode journalID.val, direction := .upload, createdAt := now
      upload := some
        { driver := handle.descriptor, source := identity, storageKey, sizeBytes := identity.sizeBytes
          checksum := identity.checksum, partBytes, parts, warnings }
      download := none }

/-- What the file system says about the parent of a destination. -/
def validateDownloadDestination (isRealDirectory : Text → Bool) (destination : Text) : Except JournalError Unit := do
  ensure (.invalidPlan "destination must be a canonical absolute file path")
    (!(!canonicalAbsolutePath destination || base destination == [0x2E] || base destination == [separator]))
  ensure (.invalidPlan "destination parent must be a real directory") (isRealDirectory (dir destination))

def stagingPath (destination : Text) (journalID : Identity) : Text :=
  join (dir destination)
    (utf8 "." ++ base destination ++ utf8 ".skydriver-" ++ hexEncode journalID.val ++ utf8 ".partial")

def prepareDownload (isRealDirectory : Text → Bool) (handle : Handle)
    (stat : Text → Except DriverError Object) (object : Object) (checksum destination : Text)
    (options : DownloadOptions) (journalID : Identity) (now : Int64) : Except JournalError PlanRecord := do
  handle.validate.mapError (.driver "validate download driver")
  ensure (.invalidPlan "selected driver cannot read complete objects") handle.hasReader
  validateSHA256 checksum
  validateDownloadDestination isRealDirectory destination
  let actual ← (stat object.locator.storageKey).mapError (.driver "stat pinned download object")
  ensure (.integrity "current driver object differs from pinned identity") (actual == object)
  let blockBytes ← chooseBlockBytes object.sizeBytes handle.descriptor.capabilities options.blockBytes
  let blocks ← buildBlocks object.sizeBytes blockBytes
  let warnings ← (assess handle.descriptor (downloadRequirements options) options.alternatives).mapError
    (.driver "assess download driver")
  .ok
    { schema, id := hexEncode journalID.val, direction := .download, createdAt := now
      upload := none
      download := some
        { driver := handle.descriptor, object, checksum, destination
          stagingPath := stagingPath destination journalID, blockBytes, blocks, warnings } }

/-! ### Admission of an execution -/

/-- The handle at hand is the one of the plan; descriptors are compared deeply. -/
def validateCurrentHandle (handle : Handle) (planned : Descriptor) : Except JournalError Unit := do
  handle.validate.mapError (.driver "validate current driver handle")
  ensure (.invalidPlan "effective driver descriptor changed; prepare a new transfer") (handle.descriptor == planned)

/-- What `executeUpload` checks in front of any provider call. -/
def admitUpload (prims : Primitives) (handle : Handle) (source : ReplayableSource) (plan : UploadPlan) :
    Except JournalError Unit := do
  validateCurrentHandle handle plan.driver
  let (identity, parts) ← inspectSource prims source plan.partBytes
  ensure .sourceChanged (identity == plan.source && parts == plan.parts)

end Skydriver.Journal
