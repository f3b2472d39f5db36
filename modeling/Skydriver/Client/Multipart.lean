import Skydriver.Client.MultipartJournal
import Skydriver.Lib.CrashProne

/-!
# Multipart uploads

An object that is too large for one request goes up in parts.  A journal next to the staged object keeps the upload and the
tags of the parts that arrived, so that an upload that was cut off goes on where it stopped.  Once every part has arrived one
last request names all of them.

A run is a program over the staging directory.  What changes a file is one write, and so is the last request, which makes
it part of the trace.  All other requests are calls, answered as the other side likes.
-/

namespace Skydriver.Multipart

open Checked

def maximumSinglePutBytes : Nat := 5 * 1024 * 1024 * 1024
def minimumPartBytes : Nat := 5 * 1024 * 1024
def maximumParts : Nat := 10000
def maximumU64 : Nat := 2 ^ 64 - 1

inductive UploadError where
  | invalidResponse (message : String)
  | transport (operation : String)
  | status (operation : String) (status : Nat) (immutableObjectExpected : Bool)
  | corruptCiphertext (message : String)
  | control

/-! ### Grants -/

/-- A parsed address, as far as grants are concerned. -/
structure Url where
  scheme : Text
  host : Option Text
  query : List (Text × Text)

/-- What an upload takes from elsewhere: the digest, and how addresses are parsed. -/
structure Primitives where
  sha256 : List UInt8 → Digest
  parseUrl : Text → Option Url

def lower (text : Text) : Text := text.map fun byte => if 65 ≤ byte ∧ byte ≤ 90 then byte + 32 else byte

/-- `eq_ignore_ascii_case`. -/
def sameName (left right : Text) : Bool := lower left == lower right

structure SignedGrant where
  verifyUrl : Option Text
  multipartCreateUrl : Option Text
  multipartCreateRequiresNoReplace : Bool
  requiredHeaders : List (Text × Text)

structure PartGrant where
  partNumber : Nat
  url : Text

structure MultipartGrant where
  schema : Text
  uploadId : Text
  parts : List PartGrant
  completeUrl : Text
  abortUrl : Text
  verifyUrl : Text
  requiredHeaders : List (Text × Text)
  expiresAt : Nat

section Grants

variable (prims : Primitives)

/-- `safe_signed_url`. -/
def safeSignedUrl (value : Text) : Bool :=
  match prims.parseUrl value with
  | some url =>
      url.scheme == utf8 "https" ||
        (url.scheme == utf8 "http" &&
          url.host.any fun host => host == utf8 "localhost" || host == utf8 "127.0.0.1" || host == utf8 "::1")
  | none => false

def signedHeaders (url : Url) : Option (List Text) :=
  (url.query.find? fun pair => sameName pair.1 (utf8 "X-Amz-SignedHeaders")).map fun pair => pair.2.splitOn 0x3B

/-- `validate_headers_are_signed`. -/
def validateHeadersAreSigned (value : Text) (required : List (Text × Text)) : Except UploadError Unit :=
  if required.isEmpty then .ok ()
  else do
    let url ← (prims.parseUrl value).orFail (.invalidResponse "parse signed-object URL")
    let signed ← (signedHeaders url).orFail (.invalidResponse "signed-object grant omitted signed headers")
    ensure (.invalidResponse "signed-object grant did not cryptographically bind every required header")
      (required.all fun header => signed.any fun name => sameName name header.1)

/-- `require_no_replace_signature`. -/
def requireNoReplaceSignature (value : Text) : Except UploadError Unit := do
  let url ← (prims.parseUrl value).orFail (.invalidResponse "parse R2 signed URL")
  let signed ← (signedHeaders url).orFail (.invalidResponse "R2 upload grant omitted signed headers")
  ensure (.invalidResponse "R2 upload grant does not enforce atomic no-replace")
    (signed.any fun name => sameName name (utf8 "if-none-match"))

/-- `validated_grant_headers`: the value of the one header that a grant may require. -/
def validatedGrantHeaders (headers : List (Text × Text)) : Except UploadError (Option Text) :=
  headers.foldlM (fun _ header => do
    ensure (.invalidResponse "signed-object grant contains an unsupported required header")
      (sameName header.1 (utf8 "x-amz-expected-bucket-owner") && header.2.length == 12 && header.2.all Json.isDigit)
    .ok (some header.2)) none

/-- `validate_multipart_grant`. -/
def validateMultipartGrant (grant : MultipartGrant) (uploadId : Text) (firstPart partCount : Nat) :
    Except UploadError Unit := do
  ensure (.invalidResponse "invalid R2 multipart grant")
    ((grant.schema == utf8 "skydriver.vfs.r2-multipart-grant.v1" ||
        grant.schema == utf8 "skydriver.vfs.s3-multipart-grant.v1") &&
      grant.uploadId == uploadId && grant.parts.length == partCount && grant.expiresAt != 0 &&
      safeSignedUrl prims grant.completeUrl && safeSignedUrl prims grant.abortUrl && safeSignedUrl prims grant.verifyUrl &&
      grant.parts.zipIdx.all fun (part, index) => part.partNumber == firstPart + index && safeSignedUrl prims part.url)
  forAll (validateHeadersAreSigned prims · grant.requiredHeaders)
    (grant.parts.map PartGrant.url ++ [grant.completeUrl, grant.abortUrl, grant.verifyUrl])

end Grants

/-! ### Parts -/

/-- The multiplication of 64-bit integers that stops at the largest one. -/
def saturatingMul (left right : Nat) : Nat := min (left * right) maximumU64

def partSize (requestedPartBytes : Nat) : Nat := max minimumPartBytes (min requestedPartBytes maximumSinglePutBytes)

/-- `div_ceil`. -/
def divCeil (bytes partBytes : Nat) : Nat := (bytes + partBytes - 1) / partBytes

def partOffset (partBytes partNumber : Nat) : Nat := saturatingMul (partNumber - 1) partBytes

def partLength (totalBytes partBytes partNumber : Nat) : Nat :=
  min (totalBytes - partOffset partBytes partNumber) partBytes

structure PartRequest where
  partNumber : Nat
  url : Text
  header : Option Text
  contentLength : Nat
  body : List UInt8

inductive PartAnswer where
  | failed (operation : String)
  | response (status : Nat) (etag : Option Text)

/-- `to_str`, of a header. -/
def headerText (header : Text) : Option Text :=
  if header.all fun byte => byte == 9 || (32 ≤ byte && byte < 127) then some header else none

/-- A text without certain bytes at both ends. -/
def trimMatches (stripped : UInt8 → Bool) (text : Text) : Text := (text.dropWhile stripped).rdropWhile stripped

/-- The tag in the answer to a part: the header without blanks, then without quotes around it. -/
def partEtag (header : Text) : Option Text :=
  ((headerText header).map fun text => trimMatches (· == 0x22) (trimMatches (fun byte => byte == 9 || byte == 32) text)).filter
    validEtag

/-- The tag in the answer to a readback: the header without quotes around it. -/
def readbackEtag (header : Text) : Option Text :=
  ((headerText header).map (trimMatches (· == 0x22))).filter validEtag

def isSuccess (status : Nat) : Bool := 200 ≤ status && status < 300

def preconditionFailed : Nat := 412

/-- What `upload_part` makes of an answer. -/
def partResult (partNumber : Nat) : PartAnswer → Except UploadError (Nat × Text)
  | .failed operation => .error (.transport operation)
  | .response status header => do
      ensure (.status s!"R2 part {partNumber}" status false) (isSuccess status)
      let etag ← (header.bind partEtag).orFail (.invalidResponse "R2 part omitted a valid ETag")
      .ok (partNumber, etag)

/-! ### Completion -/

/-- The parts of a completion request, as they are written down. -/
def partElement (part : Nat × Text) : Text :=
  utf8 "<Part><PartNumber>" ++ Json.decimal part.1 ++ utf8 "</PartNumber><ETag>&quot;" ++ part.2 ++
    utf8 "&quot;</ETag></Part>"

def completionDocument (parts : List (Nat × Text)) : Text :=
  utf8 "<CompleteMultipartUpload>" ++ parts.flatMap partElement ++ utf8 "</CompleteMultipartUpload>"

/-- `completion_xml`. -/
def completionXml (etags : PartTags) : Except UploadError Text := do
  ensure (.invalidResponse "cannot complete an empty R2 multipart upload") (!etags.isEmpty)
  ensure (.invalidResponse "invalid R2 multipart completion identity")
    (etags.toList.all fun part => part.1 != 0 && validEtag part.2)
  .ok (completionDocument etags.toList)

/-- The text behind the first occurrence of another one, and the text in front of it: `split_once`. -/
def splitOnce (separator : Text) : Text → Option (Text × Text)
  | [] => if separator = [] then some ([], []) else none
  | byte :: rest =>
      if separator <+: byte :: rest then some ([], (byte :: rest).drop separator.length)
      else (splitOnce separator rest).map fun (front, back) => (byte :: front, back)

/-- `replace`, of a text that is not empty. -/
def replaceAll (pattern replacement : Text) : Nat → Text → Text
  | 0, text => text
  | fuel + 1, text =>
      match splitOnce pattern text with
      | none => text
      | some (front, back) => front ++ replacement ++ replaceAll pattern replacement fuel back

/-- The characters that the answer of the provider may have escaped. -/
def xmlEntities : List (Text × Text) :=
  [(utf8 "&amp;", utf8 "&"), (utf8 "&lt;", utf8 "<"), (utf8 "&gt;", utf8 ">"), (utf8 "&quot;", utf8 "\""),
    (utf8 "&apos;", utf8 "'")]

/-- `xml_element`. -/
def xmlElement (document element : Text) : Option Text := do
  let (_, behind) ← splitOnce (utf8 "<" ++ element ++ utf8 ">") document
  let (value, _) ← splitOnce (utf8 "</" ++ element ++ utf8 ">") behind
  let decoded := xmlEntities.foldl (fun text entity => replaceAll entity.1 entity.2 text.length text) value
  if !decoded.isEmpty && decoded.length ≤ 1024 then some decoded else none

/-! ### Operations -/

structure Staging where
  /-- The staged object. -/
  object : List UInt8
  journal : Option (List UInt8)
  /-- The file that becomes the journal. -/
  temporary : Option (List UInt8)

structure CompletionRequest where
  url : Text
  header : Option Text
  body : Text

inductive Change where
  | stage (object : List UInt8)
  | writeTemporary (bytes : List UInt8)
  | publishJournal
  | removeJournal
  | complete (request : CompletionRequest)

def Change.execute : Change → Staging → Option (Staging × Unit)
  | .stage object, files => some ({ files with object }, ())
  | .writeTemporary bytes, files => some ({ files with temporary := some bytes }, ())
  | .publishJournal, files => files.temporary.map fun bytes => ({ files with journal := some bytes, temporary := none }, ())
  | .removeJournal, files => files.journal.map fun _ => ({ files with journal := none }, ())
  | .complete _, files => some (files, ())

inductive Effect where
  | system (context : String)
  | createMultipart (url : Text) (header : Option Text) (noReplace : Bool)
  | readBack (url : Text) (header : Option Text)
  | multipartGrant (uploadId : Text) (firstPart partCount : Nat)
  | putParts (requests : List PartRequest) (maximumConcurrency : Nat)
  | completionAnswer

inductive Answer where
  | done
  | failed
  | response (status : Nat) (body : Option Text)
  | object (status : Nat) (etag : Option Text) (body : Option (List UInt8))
  | grant (grant : MultipartGrant)
  /-- The answers to all parts, in the order in which they arrive. -/
  | parts (answers : List (Nat × PartAnswer))

abbrev Operation (α : Type) := ExceptT UploadError (Program Staging Change Unit Effect Answer) α

section Operations

variable {α : Type}

/-- A computation that touches no file. -/
def check (result : Except UploadError α) : Operation α := ExceptT.mk (.done result)

def look : Operation Staging := ExceptT.mk (.read fun files => .done (.ok files))

def ask (effect : Effect) : Operation Answer := ExceptT.mk (.call effect fun answer => .done (.ok answer))

/-- A system call that may fail. -/
def attempt (context : String) : Operation Unit := do
  match ← ask (.system context) with
  | .failed => check (.error (.invalidResponse context))
  | _ => check (.ok ())

def change (step : Change) (error : UploadError) : Operation Unit :=
  ExceptT.mk (.write step fun reply => .done (reply.orFail error))

/-- `.ok()`. -/
def settle (operation : Operation α) : Operation (Option α) :=
  ExceptT.mk (operation.run >>= fun result => .done (.ok result.toOption))

variable (prims : Primitives)

/-- `load_journal`. -/
def loadJournal : Operation (Option MultipartJournal) := do
  attempt "read R2 multipart journal"
  let files ← look
  match files.journal with
  | none => check (.ok none)
  | some bytes =>
      let journal ← check ((MultipartJournal.fromSlice bytes).orFail (.invalidResponse "decode R2 journal"))
      check (ensure (.invalidResponse "invalid R2 multipart journal") journal.valid)
      check (.ok (some journal))

/-- `store_journal`. -/
def storeJournal (journal : MultipartJournal) : Operation Unit := do
  let bytes ← check ((journal.toVec).orFail (.invalidResponse "encode R2 journal"))
  change (.writeTemporary bytes) (.invalidResponse "write R2 journal")
  attempt "protect R2 journal"
  change .publishJournal (.invalidResponse "publish R2 journal")

/-- `verify_readback`. -/
def verifyReadback (url : Text) (header : Option Text) (expectedBytes : Nat) (expectedSha256 : Text) : Operation Text := do
  match ← ask (.readBack url header) with
  | .object status etag body =>
      check (ensure (.status "R2 upload readback" status true) (isSuccess status))
      let etag ← check ((etag.bind readbackEtag).orFail
        (.invalidResponse "R2 upload readback omitted its exact ETag"))
      let bytes ← check (body.orFail (.transport "read R2 verification"))
      check (ensure (.corruptCiphertext "R2 upload failed encoded-byte readback verification")
        (bytes.length == expectedBytes && hexEncode (prims.sha256 bytes).val == expectedSha256))
      check (.ok etag)
  | _ => check (.error (.transport "read back R2 upload"))

/-- One upload: the object that was staged, and how it goes up. -/
structure Upload where
  intentId : Text
  initial : SignedGrant
  object : List UInt8
  requestedPartBytes : Nat
  maximumConcurrency : Nat

def Upload.bytes (upload : Upload) : Nat := upload.object.length
def Upload.partBytes (upload : Upload) : Nat := partSize upload.requestedPartBytes
def Upload.partCount (upload : Upload) : Nat := divCeil upload.bytes upload.partBytes
def Upload.sha256 (upload : Upload) : Text := hexEncode (prims.sha256 upload.object).val

def createJournal (upload : Upload) (initialHeader : Option Text) (createUrl : Text) : Operation (Text ⊕ MultipartJournal) := do
  match ← ask (.createMultipart createUrl initialHeader upload.initial.multipartCreateRequiresNoReplace) with
  | .response status body =>
      if status = preconditionFailed then
        let verifyUrl ← check (upload.initial.verifyUrl.orFail
          (.invalidResponse "R2 grant omitted its readback URL"))
        let etag ← verifyReadback prims verifyUrl initialHeader upload.bytes (upload.sha256 prims)
        check (.ok (.inl etag))
      else
        check (ensure (.status "R2 multipart initiation" status false) (isSuccess status))
        let body ← check (body.orFail (.transport "read R2 multipart initiation"))
        let uploadId ← check ((xmlElement body (utf8 "UploadId")).orFail
          (.invalidResponse "R2 multipart initiation omitted upload ID"))
        let journal : MultipartJournal :=
          { schema := journalSchema
            intentId := upload.intentId
            uploadId
            encodedBytes := upload.bytes
            encodedSha256 := upload.sha256 prims
            partBytes := upload.partBytes
            etags := ∅ }
        storeJournal journal
        check (.ok (.inr journal))
  | _ => check (.error (.transport "initiate R2 multipart upload"))

/-- The journal of this upload, or the tag of an object that is there already. -/
def openJournal (upload : Upload) (initialHeader : Option Text) : Operation (Text ⊕ MultipartJournal) := do
  match ← loadJournal with
  | some journal =>
      check (ensure (.invalidResponse "R2 multipart journal does not match the staged object")
        (journal.intentId == upload.intentId && journal.encodedBytes == upload.bytes &&
          journal.encodedSha256 == upload.sha256 prims && journal.partBytes == upload.partBytes))
      check (.ok (.inr journal))
  | none =>
      let createUrl ← check (upload.initial.multipartCreateUrl.orFail
        (.invalidResponse "R2 grant omitted multipart initiation"))
      if upload.initial.multipartCreateRequiresNoReplace then
        check (requireNoReplaceSignature prims createUrl)
      createJournal prims upload initialHeader createUrl

/-- The tags that arrived, added to those of the journal. -/
def recordParts (etags : PartTags) (results : List (Except UploadError (Nat × Text))) : PartTags :=
  results.foldl (fun etags result =>
    match result with
    | .ok (partNumber, etag) => etags.insert partNumber etag
    | .error _ => etags) etags

def firstError : List (Except UploadError (Nat × Text)) → Option UploadError
  | [] => none
  | .error error :: _ => some error
  | .ok _ :: results => firstError results

def partRequest (upload : Upload) (header : Option Text) (object : List UInt8) (part : PartGrant) : PartRequest where
  partNumber := part.partNumber
  url := part.url
  header := header
  contentLength := partLength upload.bytes upload.partBytes part.partNumber
  body := (object.drop (partOffset upload.partBytes part.partNumber)).take
    (partLength upload.bytes upload.partBytes part.partNumber)

/-- The answers to the requests, in the order in which they arrive. -/
def arrivedParts (requests : List PartRequest) : Answer → List (Nat × PartAnswer)
  | .parts answers => answers
  | _ => requests.map fun request => (request.partNumber, .failed "upload R2 part")

/-- `upload_part`, of all parts that have not arrived. -/
def uploadParts (upload : Upload) (header : Option Text) (pending : List PartGrant) :
    Operation (List (Except UploadError (Nat × Text))) := do
  let files ← look
  let beyond := pending.filter fun part => partLength upload.bytes upload.partBytes part.partNumber == 0
  let inside := pending.filter fun part => partLength upload.bytes upload.partBytes part.partNumber != 0
  let requests := inside.map (partRequest upload header files.object)
  let arrived := arrivedParts requests (← ask (.putParts requests (min upload.maximumConcurrency 64)))
  check (.ok (beyond.map (fun _ => .error (.invalidResponse "R2 part lies beyond object")) ++
    arrived.map fun answer => partResult answer.1 answer.2))

def uploadRound (upload : Upload) (journal : MultipartJournal) (first : Nat) : Operation (MultipartJournal × MultipartGrant) := do
  let count := min (upload.partCount - first + 1) 64
  check (ensure (.invalidResponse "R2 part number overflow") (first < 2 ^ 32))
  check (ensure (.invalidResponse "R2 part count overflow") (count < 2 ^ 32))
  match ← ask (.multipartGrant journal.uploadId first count) with
  | .grant grant =>
      check (validateMultipartGrant prims grant journal.uploadId first count)
      let header ← check (validatedGrantHeaders grant.requiredHeaders)
      let results ← uploadParts upload header (grant.parts.filter fun part => !journal.etags.contains part.partNumber)
      let journal := { journal with etags := recordParts journal.etags results }
      storeJournal journal
      match firstError results with
      | some error => check (.error error)
      | none => check (.ok (journal, grant))
  | _ => check (.error .control)

/-- The rounds of parts; the grant of the last one completes the upload. -/
def uploadRounds (upload : Upload) : List Nat → MultipartJournal → Option MultipartGrant →
    Operation (MultipartJournal × Option MultipartGrant)
  | [], journal, grant => check (.ok (journal, grant))
  | first :: rest, journal, _ => do
      let (journal, grant) ← uploadRound prims upload journal first
      uploadRounds upload rest journal (some grant)

/-- `(1..=part_count).step_by(64)`. -/
def roundStarts (partCount : Nat) : List Nat := (List.range (divCeil partCount 64)).map fun index => 1 + 64 * index

/-- The last request, once all parts have arrived. -/
def completeUpload (upload : Upload) (journal : MultipartJournal) (latestGrant : Option MultipartGrant) : Operation Text := do
  check (ensure (.invalidResponse "R2 multipart journal is incomplete after upload")
    (journal.etags.size == upload.partCount))
  let grant ← check (latestGrant.orFail (.invalidResponse "R2 multipart completion grant is absent"))
  let body ← check (completionXml journal.etags)
  check (requireNoReplaceSignature prims grant.completeUrl)
  let header ← check (validatedGrantHeaders grant.requiredHeaders)
  change (.complete ⟨grant.completeUrl, header, body⟩) (.transport "complete R2 multipart")
  match ← ask .completionAnswer with
  | .response status _ =>
      check (ensure (.status "R2 multipart completion" status false) (isSuccess status || status == preconditionFailed))
      let etag ← verifyReadback prims grant.verifyUrl header upload.bytes (upload.sha256 prims)
      change .removeJournal (.invalidResponse "remove completed R2 multipart journal")
      check (.ok etag)
  | _ => check (.error (.transport "complete R2 multipart"))

/-- The tag of an object that a completion nobody heard of put together, if it is there. -/
def recoverUpload (upload : Upload) (initialHeader : Option Text) (journal : MultipartJournal) : Operation (Option Text) := do
  match upload.initial.verifyUrl with
  | some verifyUrl =>
      if journal.etags.size = upload.partCount then
        match ← settle (verifyReadback prims verifyUrl initialHeader upload.bytes (upload.sha256 prims)) with
        | some etag =>
            change .removeJournal (.invalidResponse "remove recovered R2 multipart journal")
            check (.ok (some etag))
        | none => check (.ok none)
      else check (.ok none)
  | none => check (.ok none)

/-- `multipart_upload`: the tag of the object. -/
def multipartUpload (upload : Upload) : Operation Text := do
  let initialHeader ← check (validatedGrantHeaders upload.initial.requiredHeaders)
  check (ensure (.invalidResponse "R2 multipart parameters exceed provider bounds")
    (upload.partCount != 0 && upload.partCount ≤ maximumParts && upload.maximumConcurrency != 0))
  match ← openJournal prims upload initialHeader with
  | .inl etag => check (.ok etag)
  | .inr journal =>
      match ← recoverUpload prims upload initialHeader journal with
      | some etag => check (.ok etag)
      | none =>
          let (journal, latestGrant) ← uploadRounds prims upload (roundStarts upload.partCount) journal none
          completeUpload prims upload journal latestGrant

/-- A transfer stages its object anew and uploads it. -/
def transfer (upload : Upload) : Operation Text := do
  change (.stage upload.object) (.invalidResponse "publish encoded staging")
  multipartUpload prims upload

end Operations

end Skydriver.Multipart
