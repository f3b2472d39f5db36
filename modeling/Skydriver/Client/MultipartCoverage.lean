import Skydriver.Client.Multipart

/-!
# What a multipart upload puts together

Whenever a completion request goes out it names every part of the staged object once, in order, and each tag was given
for the bytes of that part of that object.  The journal carries this over runs that were cut off: each tag in it belongs to
an object with the length and the digest that the journal names, and to the part size in it.
-/

namespace Skydriver.Multipart

open Checked

/-! ### Part geometry -/

/-- The parts of an object lie side by side and cover it. -/
structure PartsCover (bytes partBytes partCount : Nat) : Prop where
  bounded : partCount ≤ maximumParts
  /-- No offset is cut down to the largest integer. -/
  exact : ∀ number, 1 ≤ number → number ≤ partCount →
    partOffset partBytes number = (number - 1) * partBytes ∧ (number - 1) * partBytes < 2 ^ 64
  inside : ∀ number, 1 ≤ number → number ≤ partCount →
    0 < partLength bytes partBytes number ∧ partOffset partBytes number + partLength bytes partBytes number ≤ bytes
  unique : ∀ position < bytes, ∃! number, (1 ≤ number ∧ number ≤ partCount) ∧ partOffset partBytes number ≤ position ∧
    position < partOffset partBytes number + partLength bytes partBytes number

/-- What the other side does: which addresses the control plane signs for a part of an upload, and which header the
provider answers to bytes sent to an address. -/
structure Provider where
  granted : Text → Nat → Text → Prop
  returned : Text → List UInt8 → Text → Prop

/-- Every write may fail, before or after it took effect. -/
def world (provider : Provider) : Circumstances Staging Change Unit Effect Answer where
  execute := Change.execute
  refuses _ _ := True
  answers effect _ answer :=
    match effect, answer with
    | .multipartGrant _ _ _, .grant grant => ∀ part ∈ grant.parts, provider.granted grant.uploadId part.partNumber part.url
    | .putParts requests _, .parts answers =>
        (answers.map Prod.fst).Perm (requests.map PartRequest.partNumber) ∧
          ∀ status header, ∀ request ∈ requests, (request.partNumber, .response status (some header)) ∈ answers →
            provider.returned request.url request.body header
    | _, _ => True

def partOf (object : List UInt8) (partBytes number : Nat) : List UInt8 :=
  (object.drop (partOffset partBytes number)).take (partLength object.length partBytes number)

/-- The tag was returned for the bytes of this part. -/
def Provider.Tagged (provider : Provider) (uploadId : Text) (object : List UInt8) (partBytes number : Nat) (etag : Text) :
    Prop :=
  ∃ url header, provider.granted uploadId number url ∧ provider.returned url (partOf object partBytes number) header ∧
    partEtag header = some etag

/-- The request names every part of the object once, in order, under tags that were returned for them. -/
structure CompletionCovers (provider : Provider) (upload : Upload) (request : CompletionRequest) : Prop where
  cover : PartsCover upload.bytes upload.partBytes upload.partCount
  parts : ∃ uploadId parts, request.body = completionDocument parts ∧
    parts.map Prod.fst = List.range' 1 upload.partCount ∧
      ∀ part ∈ parts, provider.Tagged uploadId upload.object upload.partBytes part.1 part.2

/-! ### Files that account for their tags -/

section Accounts

variable {prims : Primitives} {provider : Provider} {sources : Set (List UInt8)}

variable (prims provider sources) in
/-- Every tag of the journal was returned for its part of an object that has the length and the digest of the journal. -/
def MultipartJournal.Accounted (journal : MultipartJournal) : Prop :=
  ∃ object ∈ sources, journal.encodedBytes = object.length ∧ journal.encodedSha256 = hexEncode (prims.sha256 object).val ∧
    ∀ (number : Nat) (etag : Text), journal.etags[number]? = some etag →
      provider.Tagged journal.uploadId object journal.partBytes number etag

variable (prims provider sources) in
/-- Whatever journal these bytes are read as, it accounts for its tags. -/
def BytesAccounted (bytes : List UInt8) : Prop :=
  ∀ journal, MultipartJournal.fromSlice bytes = some journal → journal.Accounted prims provider sources

variable (prims provider sources) in
structure FilesAccounted (files : Staging) : Prop where
  journal : ∀ bytes, files.journal = some bytes → BytesAccounted prims provider sources bytes
  temporary : ∀ bytes, files.temporary = some bytes → BytesAccounted prims provider sources bytes

variable (prims provider sources) in
/-- What a run writes: files that account for their tags, and a request that covers the object. -/
def Permitted (upload : Upload) : Change → Staging → Prop
  | .writeTemporary bytes, _ => BytesAccounted prims provider sources bytes
  | .complete request, _ => CompletionCovers provider upload request
  | _, _ => True

theorem FilesAccounted.execute {upload : Upload} {files after : Staging} {step : Change} {reply : Unit}
    (h : FilesAccounted prims provider sources files)
    (hpermitted : Permitted prims provider sources upload step files)
    (hexecute : step.execute files = some (after, reply)) : FilesAccounted prims provider sources after := by
  cases step with
  | stage object =>
      cases hexecute
      exact ⟨h.journal, h.temporary⟩
  | writeTemporary bytes =>
      cases hexecute
      refine ⟨h.journal, ?_⟩
      rintro found ⟨⟩
      exact hpermitted
  | publishJournal =>
      obtain ⟨bytes, hbytes, heq⟩ := Option.map_eq_some_iff.mp hexecute
      cases heq
      refine ⟨?_, nofun⟩
      rintro found ⟨⟩
      exact h.temporary bytes hbytes
  | removeJournal =>
      obtain ⟨bytes, hbytes, heq⟩ := Option.map_eq_some_iff.mp hexecute
      cases heq
      exact ⟨nofun, h.temporary⟩
  | complete request =>
      cases hexecute
      exact h

end Accounts

/-! ### Operations that write permitted things only -/

section Careful

variable {α β : Type} {prims : Primitives} {provider : Provider}
  {sources : Set (List UInt8)} {upload : Upload} {files : Staging}

variable (prims provider sources upload) in
/-- The operation writes permitted things only, and where it succeeds it ends with `post`. -/
def Careful (operation : Operation α) (post : α → Staging → Prop) (files : Staging) : Prop :=
  Program.Achieves (world provider) (Permitted prims provider sources upload) operation post (fun _ _ => True) files

theorem Careful.mono {operation : Operation α} {strong weak : α → Staging → Prop}
    (h : Careful prims provider sources upload operation strong files)
    (himp : ∀ value after, strong value after → weak value after) :
    Careful prims provider sources upload operation weak files :=
  Program.Achieves.mono h himp fun _ _ _ => trivial

theorem careful_bind {operation : Operation α} {rest : α → Operation β} {post : β → Staging → Prop} :
    Careful prims provider sources upload (operation >>= rest) post files ↔
      Careful prims provider sources upload operation
        (fun value after => Careful prims provider sources upload (rest value) post after) files :=
  Program.achieves_bind

theorem careful_check {result : Except UploadError α} {post : α → Staging → Prop}
    (hpost : ∀ value, result = .ok value → post value files) :
    Careful prims provider sources upload (check result) post files := by
  cases result with
  | ok value => exact hpost value rfl
  | error error => trivial

theorem careful_look {post : Staging → Staging → Prop} (hpost : post files files) :
    Careful prims provider sources upload look post files := hpost

theorem careful_ask {effect : Effect} {post : Answer → Staging → Prop}
    (hpost : ∀ answer, (world provider).answers effect files answer → post answer files) :
    Careful prims provider sources upload (ask effect) post files := hpost

theorem careful_attempt {context : String} {post : Unit → Staging → Prop} (hpost : post () files) :
    Careful prims provider sources upload (attempt context) post files := by
  refine careful_bind.mpr (careful_ask fun answer _ => ?_)
  split
  · trivial
  · exact careful_check fun _ _ => hpost

theorem careful_change {step : Change} {error : UploadError} {post : Unit → Staging → Prop}
    (hpermitted : Permitted prims provider sources upload step files)
    (hcommitted : ∀ after reply, step.execute files = some (after, reply) → post () after) :
    Careful prims provider sources upload (change step error) post files :=
  ⟨hpermitted, fun _ => trivial, fun after reply hexecute => ⟨hcommitted after reply hexecute, fun _ => trivial⟩⟩

end Careful

/-! ### One run -/

section Run

variable {prims : Primitives} {provider : Provider} {sources : Set (List UInt8)}
  {upload : Upload} {files : Staging} {journal : MultipartJournal}

end Run

/-! ### Many runs -/

section Sessions

variable {prims : Primitives} {provider : Provider} {sources : Set (List UInt8)}

/-- Every completion request since `past` covers the object of the upload. -/
structure CoversSince (provider : Provider) (upload : Upload) (past now : Moment Staging Change) : Prop where
  length_le : past.trace.length ≤ now.trace.length
  steps : ∀ step ∈ now.trace.drop past.trace.length, ∀ request, step.1 = some (.complete request) →
    CompletionCovers provider upload request

theorem CoversSince.advance {upload : Upload} {past now : Moment Staging Change} {step : Change} {after : Staging}
    (h : CoversSince provider upload past now) (hpermitted : Permitted prims provider sources upload step now.state) :
    CoversSince provider upload past (now.advance (some step) after) where
  length_le := by
    rw [Moment.advance, List.length_append]
    exact h.length_le.trans (Nat.le_add_right _ _)
  steps := by
    intro recorded hrecorded request hrequest
    rw [Moment.advance, List.drop_append_of_le_length h.length_le, List.mem_append, List.mem_singleton] at hrecorded
    rcases hrecorded with hold | rfl
    · exact h.steps recorded hold request hrequest
    · cases hrequest
      exact hpermitted

end Sessions

/-! ### An upload that was cut off -/

namespace Sample

def object : List UInt8 := [1, 2, 3]

def url : Text := utf8 "https://bucket.example/object?X-Amz-SignedHeaders=host%3Bif-none-match"

def header : Text := utf8 "\"e1\""

def prims : Primitives where
  sha256 := polynomialDigest
  parseUrl value :=
    if value = url then
      some ⟨utf8 "https", some (utf8 "bucket.example"), [(utf8 "X-Amz-SignedHeaders", utf8 "host;if-none-match")]⟩
    else none

def provider : Provider := ⟨fun _ _ found => found = url, fun found _ answer => found = url ∧ answer = header⟩

def upload : Upload := ⟨utf8 "intent", ⟨some url, some url, true, []⟩, object, 0, 4⟩

/-- Nothing can be read back; everything else works. -/
def reply : Effect → Answer
  | .system _ => .done
  | .createMultipart _ _ _ => .response 200 (some (utf8 "<UploadId>u1</UploadId>"))
  | .readBack _ _ => .object 404 none none
  | .multipartGrant uploadId first count =>
      .grant ⟨utf8 "skydriver.vfs.r2-multipart-grant.v1", uploadId,
        (List.range count).map fun index => ⟨first + index, url⟩, url, url, url, [], 1⟩
  | .putParts requests _ =>
      .parts (if requests.all fun request => request.url == url then
        requests.map fun request => (request.partNumber, .response 200 (some header))
      else requests.map fun request => (request.partNumber, .failed "upload R2 part"))
  | .completionAnswer => .response 200 none

/-- A run that is cut off after some steps. -/
def steps (count : Nat) (moment : Moment Staging Change) : Option (Except UploadError Text) × Moment Staging Change :=
  Program.runSteps Change.execute reply count (transfer prims upload).run moment

def start : Moment Staging Change := ⟨⟨[], none, none⟩, []⟩

end Sample

end Skydriver.Multipart
