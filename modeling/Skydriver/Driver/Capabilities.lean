import Skydriver.Integrity.Directory

/-!
# Drivers and what they can do

An opened driver declares one effective mode for each capability.  A declaration is checked for contradictions before any
payload moves, and a missing preferred feature becomes a warning, a missing required one an error.
-/

namespace Skydriver.Driver

open Checked

/-- `strings.TrimSpace` leaves nothing: the text is a string of Unicode blanks. -/
def isBlankText : Text → Bool
  | [] => true
  | 0xC2 :: second :: rest => (second == 0x85 || second == 0xA0) && isBlankText rest
  | 0xE1 :: second :: third :: rest => second == 0x9A && third == 0x80 && isBlankText rest
  | 0xE2 :: second :: third :: rest =>
      ((second == 0x80 && ((0x80 ≤ third && third ≤ 0x8A) || third == 0xA8 || third == 0xA9 || third == 0xAF)) ||
        (second == 0x81 && third == 0x9F)) && isBlankText rest
  | 0xE3 :: second :: third :: rest => second == 0x80 && third == 0x80 && isBlankText rest
  | byte :: rest => (byte == 0x20 || (0x09 ≤ byte && byte ≤ 0x0D)) && isBlankText rest

/-- How an opened driver implements a capability.  Any other text is a mode that no check accepts. -/
inductive SupportMode where
  | native
  | emulated
  | unavailable
  | other (text : Text)
deriving DecidableEq, Repr

namespace SupportMode

def available (mode : SupportMode) : Bool := mode == .native || mode == .emulated

def text : SupportMode → Text
  | .native => utf8 "native"
  | .emulated => utf8 "emulated"
  | .unavailable => utf8 "unavailable"
  | .other text => text

def ofText (text : Text) : SupportMode :=
  if text = utf8 "native" then .native
  else if text = utf8 "emulated" then .emulated
  else if text = utf8 "unavailable" then .unavailable
  else .other text

end SupportMode

/-- Which part schedules a driver accepts. -/
inductive PartOrdering where
  | none
  | sequential
  | arbitrary
  | other (text : Text)
deriving DecidableEq, Repr

namespace PartOrdering

def text : PartOrdering → Text
  | .none => utf8 "none"
  | .sequential => utf8 "sequential"
  | .arbitrary => utf8 "arbitrary"
  | .other text => text

def ofText (text : Text) : PartOrdering :=
  if text = utf8 "none" then .none
  else if text = utf8 "sequential" then .sequential
  else if text = utf8 "arbitrary" then .arbitrary
  else .other text

end PartOrdering

structure ReadCapabilities where
  complete : SupportMode
  range : SupportMode
  maxParallelRanges : UInt32
  maximumRangeBytes : UInt64
deriving DecidableEq, Repr

structure WriteCapabilities where
  complete : SupportMode
  resume : SupportMode
  parallelParts : SupportMode
  partOrdering : PartOrdering
  maxParallelParts : UInt32
  minimumNonFinalPartBytes : UInt64
  maximumPartBytes : UInt64
  maximumParts : UInt32
  uploadSessionTTLSeconds : UInt64
deriving DecidableEq, Repr

/-- Upload verification by the provider.  A slice of algorithms may be absent or empty, which a deep comparison tells
apart. -/
structure IntegrityCapabilities where
  strongUploadChecksum : SupportMode
  algorithms : Option (List Text)
  requiresReadback : Bool
deriving DecidableEq, Repr

structure Capabilities where
  read : ReadCapabilities
  write : WriteCapabilities
  delete : SupportMode
  inventory : SupportMode
  serverSideCopy : SupportMode
  integrity : IntegrityCapabilities
  maximumObjectBytes : UInt64
  preferredPartBytes : UInt64
  safeConcurrency : UInt32
deriving DecidableEq, Repr

/-- One opened instance and its effective capabilities. -/
structure Descriptor where
  id : Text
  kind : Text
  summary : Text
  capabilities : Capabilities
deriving DecidableEq, Repr

/-- Optional transfer accelerations. -/
inductive Feature where
  | rangeRead
  | parallelRangeRead
  | resumableWrite
  | parallelWrite
  | strongUploadChecksum
deriving DecidableEq, Repr

inductive DriverError where
  | invalidCapabilities (message : String)
  | unknownMode (name : String) (text : Text)
  | unknownOrdering (text : Text)
  | invalidDriver (message : String)
  /-- An invalid driver with the invalid capabilities behind it. -/
  | invalidDeclaration (cause : DriverError)
  | requiredCapability (driver : Text) (feature : Feature)
  | alternative (driver : Text) (cause : DriverError)
  | duplicateRequirement (feature : Feature)
deriving DecidableEq, Repr

/-! ### Declarations without contradictions -/

def algorithmCount (integrity : IntegrityCapabilities) : Nat := (integrity.algorithms.getD []).length

def SupportMode.validate (name : String) (mode : SupportMode) : Except DriverError Unit :=
  match mode with
  | .native | .emulated | .unavailable => .ok ()
  | .other text => .error (.unknownMode name text)

def PartOrdering.validate (ordering : PartOrdering) : Except DriverError Unit :=
  match ordering with
  | .none | .sequential | .arbitrary => .ok ()
  | .other text => .error (.unknownOrdering text)

def WriteCapabilities.hasPartLimits (write : WriteCapabilities) : Bool :=
  write.maxParallelParts != 0 || write.minimumNonFinalPartBytes != 0 || write.maximumPartBytes != 0 ||
    write.maximumParts != 0

def WriteCapabilities.validatePartConcurrency (write : WriteCapabilities) : Except DriverError Unit :=
  if write.parallelParts.available then
    ensure (.invalidCapabilities "parallel writes require arbitrary ordering and concurrency above one")
      (!(write.partOrdering != .arbitrary || write.maxParallelParts < 2))
  else
    ensure (.invalidCapabilities "sequential resumable writes require concurrency one")
      (!(write.partOrdering != .sequential || write.maxParallelParts != 1))

namespace Capabilities

def validateModes (capabilities : Capabilities) : Except DriverError Unit := do
  capabilities.read.complete.validate "complete read"
  capabilities.read.range.validate "range read"
  capabilities.write.complete.validate "complete write"
  capabilities.write.resume.validate "resumable write"
  capabilities.write.parallelParts.validate "parallel parts"
  capabilities.delete.validate "delete"
  capabilities.inventory.validate "inventory"
  capabilities.serverSideCopy.validate "server-side copy"
  capabilities.integrity.strongUploadChecksum.validate "strong upload checksum"

def validateReads (capabilities : Capabilities) : Except DriverError Unit := do
  let read := capabilities.read
  ensure (.invalidCapabilities "range read requires complete read")
    (!(read.range.available && !read.complete.available))
  ensure (.invalidCapabilities "range read requires positive concurrency")
    (!(read.range.available && read.maxParallelRanges == 0))
  ensure (.invalidCapabilities "unavailable range read cannot declare concurrency")
    (!(!read.range.available && read.maxParallelRanges != 0))
  ensure (.invalidCapabilities "unavailable range read cannot declare a size limit")
    (!(!read.range.available && read.maximumRangeBytes != 0))

def validateResumablePartLimits (capabilities : Capabilities) : Except DriverError Unit := do
  let write := capabilities.write
  ensure (.invalidCapabilities "resumable write requires ordering, concurrency, and part limits")
    (!(write.partOrdering == .none || write.maxParallelParts == 0 || write.minimumNonFinalPartBytes == 0 ||
      write.maximumPartBytes == 0 || write.maximumParts == 0))
  ensure (.invalidCapabilities "minimum non-final part exceeds maximum part size")
    (!(write.minimumNonFinalPartBytes > write.maximumPartBytes))
  ensure (.invalidCapabilities "minimum non-final part exceeds maximum object size")
    (!(capabilities.maximumObjectBytes != 0 && write.minimumNonFinalPartBytes > capabilities.maximumObjectBytes))
  ensure (.invalidCapabilities "preferred part size is outside hard part limits")
    (!(capabilities.preferredPartBytes != 0 &&
      (capabilities.preferredPartBytes < write.minimumNonFinalPartBytes ||
        capabilities.preferredPartBytes > write.maximumPartBytes)))

def validateWrites (capabilities : Capabilities) : Except DriverError Unit := do
  let write := capabilities.write
  write.partOrdering.validate
  if !write.complete.available then do
    ensure (.invalidCapabilities "write acceleration requires complete write")
      (!(write.resume.available || write.parallelParts.available))
    ensure (.invalidCapabilities "unavailable writes cannot declare parts")
      (!(write.partOrdering != .none || write.hasPartLimits))
  else if !write.resume.available then
    ensure (.invalidCapabilities "non-resumable writes cannot declare upload sessions")
      (!(write.parallelParts.available || write.partOrdering != .none || write.hasPartLimits ||
        write.uploadSessionTTLSeconds != 0 || capabilities.preferredPartBytes != 0))
  else do
    capabilities.validateResumablePartLimits
    write.validatePartConcurrency

def validateIntegrity (capabilities : Capabilities) : Except DriverError Unit := do
  let strong := capabilities.integrity.strongUploadChecksum.available
  ensure (.invalidCapabilities "strong upload checksum requires an algorithm")
    (!(strong && algorithmCount capabilities.integrity == 0))
  ensure (.invalidCapabilities "unavailable strong checksum cannot list algorithms")
    (!(!strong && algorithmCount capabilities.integrity != 0))
  ensure (.invalidCapabilities "writes without strong checksum require full readback")
    (!(capabilities.write.complete.available && !strong && !capabilities.integrity.requiresReadback))
  ensure (.invalidCapabilities "mandatory upload readback requires complete read support")
    (!(capabilities.integrity.requiresReadback && !capabilities.read.complete.available))
  ensure (.invalidCapabilities "read-only driver cannot require upload readback")
    (!(!capabilities.write.complete.available && capabilities.integrity.requiresReadback))

def validate (capabilities : Capabilities) : Except DriverError Unit := do
  capabilities.validateModes
  capabilities.validateReads
  capabilities.validateWrites
  capabilities.validateIntegrity
  ensure (.invalidCapabilities "safe concurrency must be positive") (!(capabilities.safeConcurrency == 0))
  ensure (.invalidCapabilities "at least one complete-object direction is required")
    (!(!capabilities.read.complete.available && !capabilities.write.complete.available))

def support (capabilities : Capabilities) : Feature → SupportMode
  | .rangeRead => capabilities.read.range
  | .parallelRangeRead =>
      if capabilities.read.range.available && capabilities.read.maxParallelRanges > 1 then capabilities.read.range
      else .unavailable
  | .resumableWrite => capabilities.write.resume
  | .parallelWrite => capabilities.write.parallelParts
  | .strongUploadChecksum => capabilities.integrity.strongUploadChecksum

end Capabilities

def Descriptor.validate (descriptor : Descriptor) : Except DriverError Unit := do
  ensure (.invalidDriver "driver ID is required") (!isBlankText descriptor.id)
  ensure (.invalidDriver "driver kind is required") (!isBlankText descriptor.kind)
  ensure (.invalidDriver "driver summary is required") (!isBlankText descriptor.summary)
  descriptor.capabilities.validate.mapError .invalidDeclaration

/-! ### Degradation -/

inductive RequirementLevel where
  | preferred
  | required
deriving DecidableEq, Repr

structure Requirement where
  feature : Feature
  level : RequirementLevel
deriving DecidableEq, Repr

/-- Another driver that has the missing feature. -/
structure Replacement where
  driverID : Text
  driverKind : Text
  reason : Text
deriving DecidableEq, Repr

/-- A degradation that keeps the transfer correct. -/
structure Warning where
  code : Text
  severity : Text
  driverID : Text
  driverKind : Text
  feature : Text
  correctnessImpact : Text
  performanceImpact : Text
  fallback : Text
  replacements : List Replacement
deriving DecidableEq, Repr

def Feature.text : Feature → Text
  | .rangeRead => utf8 "range_read"
  | .parallelRangeRead => utf8 "parallel_range_read"
  | .resumableWrite => utf8 "resumable_write"
  | .parallelWrite => utf8 "parallel_write"
  | .strongUploadChecksum => utf8 "strong_upload_checksum"

structure WarningDetail where
  code : Text
  performanceImpact : Text
  fallback : Text

def warningDetails : Feature → WarningDetail
  | .rangeRead =>
      { code := utf8 "driver.range_read_unavailable"
        performanceImpact := utf8 "the current file must be downloaded as one sequential object"
        fallback := utf8 "sequential_full_object_download" }
  | .parallelRangeRead =>
      { code := utf8 "driver.parallel_range_read_unavailable"
        performanceImpact := utf8 "one large file cannot use concurrent byte-range requests"
        fallback := utf8 "single_range_download" }
  | .resumableWrite =>
      { code := utf8 "driver.resumable_write_unavailable"
        performanceImpact := utf8 "the current file restarts after an interrupted upload"
        fallback := utf8 "restart_current_file" }
  | .parallelWrite =>
      { code := utf8 "driver.parallel_write_unavailable"
        performanceImpact :=
          utf8 "one large file uploads sequentially while file-level concurrency remains available"
        fallback := utf8 "sequential_single_file_upload" }
  | .strongUploadChecksum =>
      { code := utf8 "driver.strong_upload_checksum_unavailable"
        performanceImpact := utf8 "publication requires one complete provider readback"
        fallback := utf8 "complete_readback_verification" }

def newWarning (selected : Descriptor) (feature : Feature) (alternatives : List Descriptor) : Warning :=
  let details := warningDetails feature
  { code := details.code
    severity := utf8 "warning"
    driverID := selected.id
    driverKind := selected.kind
    feature := feature.text
    correctnessImpact := utf8 "unchanged"
    performanceImpact := details.performanceImpact
    fallback := details.fallback
    replacements :=
      (alternatives.filter fun alternative =>
        !(alternative.id == selected.id || !(alternative.capabilities.support feature).available)).map fun alternative =>
          { driverID := alternative.id, driverKind := alternative.kind, reason := utf8 "supports " ++ feature.text } }

/-- The requirements that are left, behind the features already seen. -/
def assessFrom (selected : Descriptor) (alternatives : List Descriptor) :
    List Feature → List Requirement → Except DriverError (List Warning)
  | _, [] => .ok []
  | seen, requirement :: rest => do
      ensure (.duplicateRequirement requirement.feature) (!seen.contains requirement.feature)
      if (selected.capabilities.support requirement.feature).available then
        assessFrom selected alternatives (requirement.feature :: seen) rest
      else do
        ensure (.requiredCapability selected.id requirement.feature) (requirement.level != .required)
        let warnings ← assessFrom selected alternatives (requirement.feature :: seen) rest
        .ok (newWarning selected requirement.feature alternatives :: warnings)

/-- The warnings of a selected driver, or the first reason to refuse it. -/
def assess (selected : Descriptor) (requirements : List Requirement) (alternatives : List Descriptor) :
    Except DriverError (List Warning) := do
  selected.validate
  forAll (fun alternative => alternative.validate.mapError (.alternative alternative.id)) alternatives
  assessFrom selected alternatives [] requirements

/-! ### Handles and objects -/

/-- One complete immutable object inside a driver. -/
structure Locator where
  storageKey : Text
  nativeID : Text
  version : Text
  etag : Text
deriving DecidableEq, Repr

structure Object where
  locator : Locator
  sizeBytes : UInt64
deriving DecidableEq, Repr

/-- An opened driver: its descriptor and which of the interfaces it has. -/
structure Handle where
  descriptor : Descriptor
  hasReader : Bool
  hasRangeReader : Bool
  hasWriter : Bool
  hasResumableWriter : Bool
  hasDeleter : Bool
  hasInventory : Bool
deriving DecidableEq, Repr

def Handle.validate (handle : Handle) : Except DriverError Unit := do
  handle.descriptor.validate
  let capabilities := handle.descriptor.capabilities
  ensure (.invalidDriver "complete reader capability and interface disagree")
    (capabilities.read.complete.available == handle.hasReader)
  ensure (.invalidDriver "range reader capability and interface disagree")
    (capabilities.read.range.available == handle.hasRangeReader)
  ensure (.invalidDriver "complete writer capability and interface disagree")
    (capabilities.write.complete.available == handle.hasWriter)
  ensure (.invalidDriver "resumable writer capability and interface disagree")
    (capabilities.write.resume.available == handle.hasResumableWriter)
  ensure (.invalidDriver "deleter capability and interface disagree")
    (capabilities.delete.available == handle.hasDeleter)
  ensure (.invalidDriver "inventory capability and interface disagree")
    (capabilities.inventory.available == handle.hasInventory)

end Skydriver.Driver
