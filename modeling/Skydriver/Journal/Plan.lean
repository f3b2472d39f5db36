import Skydriver.Driver.Capabilities

/-!
# Transfer plans

A journal fixes in its plan everything that a transfer needs to resume: the driver as it was opened, the source or the
object, the destination, and the gapless layout of parts or blocks.  Paths are byte strings, of which any may be named as
long as it is canonical and absolute.
-/

namespace Skydriver.Journal

open Checked Driver

inductive JournalError where
  | invalidStore (message : String)
  | invalidPlan (message : String)
  /-- A plan with an invalid driver. -/
  | planDriver (context : String) (cause : DriverError)
  | unknownDirection (text : Text)
  | notFound
  | conflict (message : String)
  | corrupt (message : String)
  /-- A record that holds an invalid plan. -/
  | corruptPlan (cause : JournalError)
  | busy
  | sourceChanged
  | integrity (message : String)
  /-- An error of the driver contract. -/
  | driver (context : String) (cause : DriverError)
  /-- An error of an input, with what was attempted. -/
  | input (context : String)
deriving DecidableEq, Repr

def schema : Text := utf8 "skydriver.transfer-journal/v1"

def maximumPlanPieces : UInt32 := 100000

/-! ### Paths -/

def separator : UInt8 := 0x2F

/-- One step of `filepath.Clean` on the components so far, the last one first. -/
def cleanStep (rooted : Bool) (cleaned : List Text) (component : Text) : List Text :=
  if component = [] ∨ component = [0x2E] then cleaned
  else if component = [0x2E, 0x2E] then
    match cleaned with
    | last :: rest => if last = [0x2E, 0x2E] then component :: cleaned else rest
    | [] => if rooted then [] else [component]
  else component :: cleaned

def isAbs (path : Text) : Bool := path.head? == some separator

/-- `filepath.Clean`. -/
def clean (path : Text) : Text :=
  let rooted := isAbs path
  let components := ((path.splitOn separator).foldl (cleanStep rooted) []).reverse
  let joined := [separator].intercalate components
  if rooted then separator :: joined else if components = [] then [0x2E] else joined

/-- `filepath.Dir`. -/
def dir (path : Text) : Text := clean ((path.reverse.dropWhile (· != separator)).reverse)

/-- `filepath.Base`. -/
def base (path : Text) : Text :=
  if path = [] then [0x2E]
  else
    let trimmed := path.reverse.dropWhile (· == separator)
    if trimmed = [] then [separator] else (trimmed.takeWhile (· != separator)).reverse

/-- `filepath.Join` of two elements. -/
def join (front back : Text) : Text :=
  if front = [] then (if back = [] then [] else clean back)
  else if back = [] then clean front
  else clean (front ++ separator :: back)

def canonicalAbsolutePath (path : Text) : Bool := path != [] && isAbs path && clean path == path

/-! ### Plans -/

/-- The payload flow of a journal. -/
inductive Direction where
  | upload
  | download
  | other (text : Text)
deriving DecidableEq, Repr

namespace Direction

def text : Direction → Text
  | .upload => utf8 "upload"
  | .download => utf8 "download"
  | .other text => text

def ofText (text : Text) : Direction :=
  if text = utf8 "upload" then .upload else if text = utf8 "download" then .download else .other text

end Direction

/-- What pins a replayable upload source. -/
structure SourceIdentity where
  kind : Text
  reference : Text
  version : Text
  sizeBytes : UInt64
  checksum : Text
deriving DecidableEq, Repr

structure PlannedPart where
  number : UInt32
  offset : UInt64
  length : UInt64
  checksum : Text
deriving DecidableEq, Repr

structure PlannedBlock where
  number : UInt32
  offset : UInt64
  length : UInt64
deriving DecidableEq, Repr

structure UploadPlan where
  driver : Descriptor
  source : SourceIdentity
  storageKey : Text
  sizeBytes : UInt64
  checksum : Text
  partBytes : UInt64
  parts : List PlannedPart
  warnings : List Warning
deriving DecidableEq, Repr

structure DownloadPlan where
  driver : Descriptor
  object : Object
  checksum : Text
  destination : Text
  stagingPath : Text
  blockBytes : UInt64
  blocks : List PlannedBlock
  warnings : List Warning
deriving DecidableEq, Repr

structure PlanRecord where
  schema : Text
  id : Text
  direction : Direction
  createdAt : Int64
  upload : Option UploadPlan
  download : Option DownloadPlan
deriving DecidableEq, Repr

/-- Lowercase hexadecimal text of exactly `width` bytes. -/
def isHexOf (width : Nat) (text : Text) : Bool :=
  match hexDecode text with
  | some bytes => bytes.length == width
  | none => false

def validateSHA256 (checksum : Text) : Except JournalError Unit :=
  ensure (.invalidPlan "SHA-256 must be 64 lowercase hexadecimal characters") (isHexOf 32 checksum)

def validateIdentity (identity : Text) : Except JournalError Unit :=
  ensure (.invalidPlan "journal ID must be 32 lowercase hexadecimal characters") (isHexOf 16 identity)

@[simp] theorem validateIdentity_isOk (identity : Text) : (validateIdentity identity).isOk = isHexOf 16 identity := by
  cases hidentity : isHexOf 16 identity <;> simp [validateIdentity, hidentity, ensure, Except.isOk, Except.toBool]

/-- The parts behind `index` parts that end at `nextOffset`, and where the last one ends. -/
def validatePartsFrom (sizeBytes partBytes : UInt64) : Nat → UInt64 → List PlannedPart → Except JournalError UInt64
  | _, nextOffset, [] => .ok nextOffset
  | index, nextOffset, part :: rest => do
      let expectedLength := min partBytes (sizeBytes - nextOffset)
      ensure (.invalidPlan "upload parts are not canonical and gapless")
        (!(part.number != .ofNat (index + 1) || part.offset != nextOffset || part.length != expectedLength))
      validateSHA256 part.checksum
      validatePartsFrom sizeBytes partBytes (index + 1) (nextOffset + part.length) rest

def validateParts (sizeBytes partBytes : UInt64) (parts : List PlannedPart) : Except JournalError Unit :=
  if sizeBytes = 0 then
    ensure (.invalidPlan "empty upload cannot contain parts") (!(partBytes != 0 || parts.length != 0))
  else do
    ensure (.invalidPlan "non-empty upload requires a part layout") (!(partBytes == 0 || parts.length == 0))
    ensure (.invalidPlan "upload exceeds maximum journal part count") (!(parts.length > maximumPlanPieces.toNat))
    let covered ← validatePartsFrom sizeBytes partBytes 0 0 parts
    ensure (.invalidPlan "upload parts do not cover the complete object") (!(covered != sizeBytes))

def validateBlocksFrom (sizeBytes blockBytes : UInt64) : Nat → UInt64 → List PlannedBlock → Except JournalError UInt64
  | _, nextOffset, [] => .ok nextOffset
  | index, nextOffset, block :: rest => do
      let expectedLength := min blockBytes (sizeBytes - nextOffset)
      ensure (.invalidPlan "download blocks are not canonical and gapless")
        (!(block.number != .ofNat (index + 1) || block.offset != nextOffset || block.length != expectedLength))
      validateBlocksFrom sizeBytes blockBytes (index + 1) (nextOffset + block.length) rest

def validateBlocks (sizeBytes blockBytes : UInt64) (blocks : List PlannedBlock) : Except JournalError Unit :=
  if sizeBytes = 0 then
    ensure (.invalidPlan "empty download cannot contain blocks") (!(blockBytes != 0 || blocks.length != 0))
  else do
    ensure (.invalidPlan "non-empty download requires a block layout") (!(blockBytes == 0 || blocks.length == 0))
    ensure (.invalidPlan "download exceeds maximum journal block count") (!(blocks.length > maximumPlanPieces.toNat))
    let covered ← validateBlocksFrom sizeBytes blockBytes 0 0 blocks
    ensure (.invalidPlan "download blocks do not cover the complete object") (!(covered != sizeBytes))

def SourceIdentity.validate (identity : SourceIdentity) : Except JournalError Unit := do
  ensure (.invalidPlan "source identity fields are required")
    (!(isBlankText identity.kind || isBlankText identity.reference || isBlankText identity.version))
  validateSHA256 identity.checksum

def UploadPlan.validate (plan : UploadPlan) : Except JournalError Unit := do
  plan.driver.validate.mapError (.planDriver "upload driver")
  ensure (.invalidPlan "upload source and object identity disagree")
    (!(isBlankText plan.storageKey || plan.sizeBytes != plan.source.sizeBytes || plan.checksum != plan.source.checksum))
  plan.source.validate
  validateSHA256 plan.checksum
  let capabilities := plan.driver.capabilities
  ensure (.invalidPlan "upload exceeds driver object limit")
    (!(capabilities.maximumObjectBytes != 0 && plan.sizeBytes > capabilities.maximumObjectBytes))
  ensure (.invalidPlan "upload layout exceeds driver part limits")
    (!(plan.sizeBytes != 0 && capabilities.write.resume.available &&
      (plan.partBytes < capabilities.write.minimumNonFinalPartBytes ||
        plan.partBytes > capabilities.write.maximumPartBytes ||
        plan.parts.length > capabilities.write.maximumParts.toNat)))
  validateParts plan.sizeBytes plan.partBytes plan.parts

def DownloadPlan.validate (plan : DownloadPlan) : Except JournalError Unit := do
  plan.driver.validate.mapError (.planDriver "download driver")
  ensure (.invalidPlan "download object identity is required") (!isBlankText plan.object.locator.storageKey)
  validateSHA256 plan.checksum
  let capabilities := plan.driver.capabilities
  ensure (.invalidPlan "download exceeds driver object limit")
    (!(capabilities.maximumObjectBytes != 0 && plan.object.sizeBytes > capabilities.maximumObjectBytes))
  ensure (.invalidPlan "download block exceeds driver range limit")
    (!(capabilities.read.range.available && capabilities.read.maximumRangeBytes != 0 &&
      plan.blockBytes > capabilities.read.maximumRangeBytes))
  ensure (.invalidPlan "download paths must be distinct canonical siblings")
    (!(!canonicalAbsolutePath plan.destination || !canonicalAbsolutePath plan.stagingPath ||
      dir plan.destination != dir plan.stagingPath || plan.destination == plan.stagingPath))
  validateBlocks plan.object.sizeBytes plan.blockBytes plan.blocks

def PlanRecord.validate (plan : PlanRecord) : Except JournalError Unit := do
  ensure (.invalidPlan "invalid plan envelope identity")
    (!(plan.schema != Journal.schema || !(validateIdentity plan.id).isOk || plan.createdAt ≤ 0))
  match plan.direction with
  | .upload =>
      match plan.upload, plan.download with
      | some upload, none => upload.validate
      | _, _ => .error (.invalidPlan "upload plan union is invalid")
  | .download =>
      match plan.download, plan.upload with
      | some download, none => download.validate
      | _, _ => .error (.invalidPlan "download plan union is invalid")
  | .other text => .error (.unknownDirection text)

end Skydriver.Journal
