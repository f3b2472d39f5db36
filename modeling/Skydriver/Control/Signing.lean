import Skydriver.Lib.KeyOrder
import Skydriver.Lib.PercentEncoding
import Skydriver.Lib.Utf8
import Skydriver.Lib.Json
import Skydriver.Integrity.Directory

/-!
# Presigned object URLs

A presigned URL carries a signature over a canonical request: the method, the percent-encoded path, the sorted and
encoded query and the headers that the client has to send.  The canonical request and the URL are joined from texts that
the caller chooses, with separators that encoding keeps out of them.
-/

namespace Skydriver.R2Signing

open Percent

/-! ### Texts -/

/-- The white space characters of Unicode, in UTF-8. -/
def whitespace : List Text :=
  [[0x09], [0x0A], [0x0B], [0x0C], [0x0D], [0x20], [0xC2, 0x85], [0xC2, 0xA0], [0xE1, 0x9A, 0x80], [0xE2, 0x80, 0x80],
    [0xE2, 0x80, 0x81], [0xE2, 0x80, 0x82], [0xE2, 0x80, 0x83], [0xE2, 0x80, 0x84], [0xE2, 0x80, 0x85],
    [0xE2, 0x80, 0x86], [0xE2, 0x80, 0x87], [0xE2, 0x80, 0x88], [0xE2, 0x80, 0x89], [0xE2, 0x80, 0x8A],
    [0xE2, 0x80, 0xA8], [0xE2, 0x80, 0xA9], [0xE2, 0x80, 0xAF], [0xE2, 0x81, 0x9F], [0xE3, 0x80, 0x80]]

/-- Remove at most `fuel` white space characters from the start. -/
def trimStartFrom : Nat → Text → Text
  | 0, text => text
  | fuel + 1, text =>
      match whitespace.find? fun space => space.isPrefixOf text with
      | some space => trimStartFrom fuel (text.drop space.length)
      | none => text

/-- Remove at most `fuel` white space characters from the end. -/
def trimEndFrom : Nat → Text → Text
  | 0, text => text
  | fuel + 1, text =>
      match whitespace.find? fun space => space.isSuffixOf text with
      | some space => trimEndFrom fuel (text.take (text.length - space.length))
      | none => text

/-- `str::trim`. -/
def trim (text : Text) : Text :=
  let started := trimStartFrom text.length text
  trimEndFrom started.length started

def isLowercase (byte : UInt8) : Bool := decide (0x61 ≤ byte) && decide (byte ≤ 0x7A)

def isUppercase (byte : UInt8) : Bool := decide (0x41 ≤ byte) && decide (byte ≤ 0x5A)

def isDigit (byte : UInt8) : Bool := decide (0x30 ≤ byte) && decide (byte ≤ 0x39)

def isControl (byte : UInt8) : Bool := decide (byte < 0x20) || byte == 0x7F

/-- The bytes that `percent_encode` keeps. -/
def unreserved (encodeSlash : Bool) (byte : UInt8) : Bool :=
  isLowercase byte || isUppercase byte || isDigit byte || byte == 0x2D || byte == 0x5F || byte == 0x2E || byte == 0x7E ||
    (!encodeSlash && byte == 0x2F)

def percentEncode (value : Text) (encodeSlash : Bool) : Text := encode (unreserved encodeSlash) value

/-- `str::get(..8)`. -/
def datePart (timestamp : Text) : Option Text :=
  if 8 ≤ timestamp.length ∧ !timestamp[8]?.any Utf8.isContinuation then some (timestamp.take 8) else none

/-! ### Signing -/

def service : Text := utf8 "s3"

def algorithm : Text := utf8 "AWS4-HMAC-SHA256"

structure SigningTarget where
  endpoint : Text
  region : Text
  bucketPath : Option Text

structure Credential where
  accessKeyId : Text
  secretAccessKey : Text

def validSecret (value : Text) (maximum : Nat) : Bool :=
  !value.isEmpty && decide (value.length ≤ maximum) && trim value == value && !value.contains 0

def validCredential (credential : Credential) : Bool :=
  validSecret credential.accessKeyId 256 && validSecret credential.secretAccessKey 256

/-- What a presigned URL is for. -/
structure SigningRequest where
  method : Text
  key : Text
  expiresSeconds : Nat
  extraQuery : List Pair
  requiredHeaders : List Pair
  timestamp : Text

def methods : List Text := [utf8 "GET", utf8 "HEAD", utf8 "PUT", utf8 "POST", utf8 "DELETE"]

def validRegion (region : Text) : Bool :=
  !region.isEmpty && region.all fun byte => isLowercase byte || isDigit byte || byte == 0x2D

/-- The authority of an endpoint, if it is one. -/
def hostOf (endpoint : Text) : Option Text :=
  if (utf8 "https://").isPrefixOf endpoint then
    let host := endpoint.drop 8
    if host.isEmpty || host.any fun byte => byte == 0x2F || byte == 0x3F || byte == 0x23 || byte == 0x40 then none
    else some host
  else none

def validHeader (header : Pair) : Bool :=
  !header.1.isEmpty && header.1 != utf8 "host" &&
    (header.1.all fun byte => isLowercase byte || byte == 0x2D || isDigit byte) && !header.2.isEmpty &&
    !header.2.any isControl

/-- `windows(2).any(|pair| pair[0].0 == pair[1].0)` -/
def repeatsName : List Pair → Bool
  | first :: second :: rest => first.1 == second.1 || repeatsName (second :: rest)
  | _ => false

def canonicalHeaders (host : Text) (requiredHeaders : List Pair) : List Pair :=
  KeyOrder.sortByKey Prod.fst ((utf8 "host", host) :: requiredHeaders)

def signedHeaders (headers : List Pair) : Text := [0x3B].intercalate (headers.map Prod.fst)

def renderHeader (header : Pair) : Text := header.1 ++ 0x3A :: (trim header.2 ++ [0x0A])

def renderHeaders (headers : List Pair) : Text := headers.flatMap renderHeader

def canonicalUri (bucketPath : Option Text) (key : Text) : Text :=
  match bucketPath with
  | none => 0x2F :: percentEncode key false
  | some bucket => 0x2F :: (percentEncode bucket true ++ 0x2F :: percentEncode key false)

def algorithmName : Text := utf8 "X-Amz-Algorithm"

def credentialName : Text := utf8 "X-Amz-Credential"

def dateName : Text := utf8 "X-Amz-Date"

def expiresName : Text := utf8 "X-Amz-Expires"

def signedHeadersName : Text := utf8 "X-Amz-SignedHeaders"

def signatureName : Text := utf8 "X-Amz-Signature"

/-- The parameters that every presigned URL has. -/
def baseQuery (credential : Credential) (scope timestamp : Text) (expiresSeconds : Nat) (signed : Text) : List Pair :=
  [(algorithmName, algorithm), (credentialName, credential.accessKeyId ++ 0x2F :: scope), (dateName, timestamp),
    (expiresName, Json.decimal expiresSeconds), (signedHeadersName, signed)]

/-- By encoded name, then by encoded value. -/
def EncodedLE (left right : Pair) : Prop :=
  percentEncode left.1 true < percentEncode right.1 true ∨
    percentEncode left.1 true = percentEncode right.1 true ∧ percentEncode left.2 true ≤ percentEncode right.2 true

instance : DecidableRel EncodedLE := fun _ _ => inferInstanceAs (Decidable (_ ∨ _))

def sortQuery (query : List Pair) : List Pair := query.insertionSort EncodedLE

def canonicalQuery (query : List Pair) : Text := joinPairs (encodePairs (unreserved true) query)

/-- The parts of a canonical request, and the scope of its signature. -/
structure Canonical where
  scope : Text
  uri : Text
  query : Text
  renderedHeaders : Text
  signedHeaders : Text

/-- The checks of `presign_target_at`, and what it signs. -/
def canonicalAt (target : SigningTarget) (credential : Credential) (request : SigningRequest) : Option Canonical :=
  if !methods.contains request.method || !validCredential credential || request.expiresSeconds == 0 ||
      decide (900 < request.expiresSeconds) || !validRegion target.region then none
  else do
    let host ← hostOf target.endpoint
    let date ← datePart request.timestamp
    let scope := date ++ 0x2F :: (target.region ++ 0x2F :: (service ++ utf8 "/aws4_request"))
    if !request.requiredHeaders.all validHeader then none
    else
      let headers := canonicalHeaders host request.requiredHeaders
      if repeatsName headers then none
      else
        let signed := signedHeaders headers
        let query := sortQuery
          (baseQuery credential scope request.timestamp request.expiresSeconds signed ++ request.extraQuery)
        some ⟨scope, canonicalUri target.bucketPath request.key, canonicalQuery query, renderHeaders headers, signed⟩

def Canonical.request (canonical : Canonical) (method : Text) : Text :=
  method ++ 0x0A :: (canonical.uri ++ 0x0A :: (canonical.query ++ 0x0A :: (canonical.renderedHeaders ++
    0x0A :: (canonical.signedHeaders ++ 0x0A :: utf8 "UNSIGNED-PAYLOAD"))))

def canonicalRequestAt (target : SigningTarget) (credential : Credential) (request : SigningRequest) : Option Text :=
  (canonicalAt target credential request).map fun canonical => canonical.request request.method

section Signature

variable (prims : Primitives) (hmac : List UInt8 → List UInt8 → List UInt8)

def signingKey (secret date region : Text) : List UInt8 :=
  hmac (hmac (hmac (hmac (utf8 "AWS4" ++ secret) date) region) service) (utf8 "aws4_request")

def signatureOf (target : SigningTarget) (credential : Credential) (request : SigningRequest) (canonical : Canonical) :
    Text :=
  let stringToSign := algorithm ++ 0x0A :: (request.timestamp ++ 0x0A :: (canonical.scope ++
    0x0A :: hexEncode (prims.sha256 (canonical.request request.method)).val))
  hexEncode (hmac (signingKey hmac credential.secretAccessKey (request.timestamp.take 8) target.region) stringToSign)

def presignTargetAt (target : SigningTarget) (credential : Credential) (request : SigningRequest) : Option Text :=
  (canonicalAt target credential request).map fun canonical =>
    target.endpoint ++ (canonical.uri ++ 0x3F :: (canonical.query ++
      0x26 :: (signatureName ++ 0x3D :: signatureOf prims hmac target credential request canonical)))

end Signature

/-! ### What the texts are made of -/

theorem trimStartFrom_suffix (fuel : Nat) (text : Text) : trimStartFrom fuel text <:+ text := by
  induction fuel generalizing text with
  | zero => exact List.suffix_rfl
  | succ fuel ih =>
      rw [trimStartFrom]
      split
      · exact (ih _).trans (List.drop_suffix _ _)
      · exact List.suffix_rfl

theorem trimEndFrom_isPrefix (fuel : Nat) (text : Text) : trimEndFrom fuel text <+: text := by
  induction fuel generalizing text with
  | zero => exact List.prefix_rfl
  | succ fuel ih =>
      rw [trimEndFrom]
      split
      · exact (ih _).trans (List.take_prefix _ _)
      · exact List.prefix_rfl

theorem mem_of_mem_trim {text : Text} {byte : UInt8} (h : byte ∈ trim text) : byte ∈ text :=
  (trimStartFrom_suffix _ text).subset ((trimEndFrom_isPrefix _ _).subset h)

theorem unreserved_percent (encodeSlash : Bool) : unreserved encodeSlash 0x25 = false := by
  cases encodeSlash <;> decide

theorem percentEncode_injective (encodeSlash : Bool) :
    Function.Injective fun value => percentEncode value encodeSlash :=
  encode_injective (unreserved_percent encodeSlash)

theorem decode_percentEncode (value : Text) (encodeSlash : Bool) : decode (percentEncode value encodeSlash) = value :=
  decode_encode (unreserved_percent encodeSlash) value

theorem not_mem_percentEncode {separator : UInt8} (encodeSlash : Bool) (value : Text)
    (hkept : unreserved encodeSlash separator = false) (hother : separator ≠ 0x25 ∧ isUpperDigit separator = false) :
    separator ∉ percentEncode value encodeSlash := not_mem_encode hkept hother.1 hother.2 value

/-- Neither a line feed nor a question mark. -/
def Separator (byte : UInt8) : Prop := byte = 0x0A ∨ byte = 0x3F

theorem Separator.encoded {byte : UInt8} (h : Separator byte) (value : Text) (encodeSlash : Bool) :
    byte ∉ percentEncode value encodeSlash := by
  rcases h with rfl | rfl
  · exact not_mem_percentEncode encodeSlash value (by cases encodeSlash <;> decide) (by decide)
  · exact not_mem_percentEncode encodeSlash value (by cases encodeSlash <;> decide) (by decide)

theorem Separator.canonicalUri {byte : UInt8} (h : Separator byte) (bucketPath : Option Text) (key : Text) :
    byte ∉ canonicalUri bucketPath key := by
  have hslash : byte ≠ 0x2F := by
    rcases h with rfl | rfl
    · decide
    · decide
  unfold R2Signing.canonicalUri
  split
  · rw [List.mem_cons]
    rintro (heq | hmem)
    · exact hslash heq
    · exact h.encoded _ _ hmem
  · rw [List.mem_cons, List.mem_append, List.mem_cons]
    rintro (heq | hmem | heq | hmem)
    · exact hslash heq
    · exact h.encoded _ _ hmem
    · exact hslash heq
    · exact h.encoded _ _ hmem

theorem Separator.canonicalQuery {byte : UInt8} (h : Separator byte) (query : List Pair) :
    byte ∉ canonicalQuery query := by
  intro hmem
  rcases mem_joinPairs hmem with rfl | ⟨pair, hpair, hmem⟩
  · rcases h with h | h
    · cases h
    · cases h
  · obtain ⟨plain, _, rfl⟩ := List.mem_map.mp hpair
    rw [joinPair, List.mem_append, List.mem_cons] at hmem
    rcases hmem with hname | rfl | hvalue
    · exact h.encoded plain.1 true hname
    · rcases h with h | h
      · cases h
      · cases h
    · exact h.encoded plain.2 true hvalue

/-! ### Headers -/

theorem mem_canonicalHeaders {host : Text} {requiredHeaders : List Pair} {header : Pair} :
    header ∈ canonicalHeaders host requiredHeaders ↔ header = (utf8 "host", host) ∨ header ∈ requiredHeaders := by
  rw [canonicalHeaders, (KeyOrder.sortByKey_perm Prod.fst _).mem_iff, List.mem_cons]

theorem validHeader_name {header : Pair} (h : validHeader header = true) : ∀ byte ∈ header.1,
    isLowercase byte = true ∨ byte = 0x2D ∨ isDigit byte = true := by
  simp only [validHeader, Bool.and_eq_true, List.all_eq_true, Bool.or_eq_true, beq_iff_eq] at h
  intro byte hmem
  rcases h.1.1.2 byte hmem with (hlower | hdash) | hdigit
  · exact .inl hlower
  · exact .inr (.inl hdash)
  · exact .inr (.inr hdigit)

theorem validHeader_ne_host {header : Pair} (h : validHeader header = true) : header.1 ≠ utf8 "host" := by
  simp only [validHeader, Bool.and_eq_true, bne_iff_ne] at h
  exact h.1.1.1.2

theorem validHeader_value {header : Pair} (h : validHeader header = true) : 0x0A ∉ trim header.2 := by
  simp only [validHeader, Bool.and_eq_true, Bool.not_eq_true', List.any_eq_false] at h
  intro hmem
  have hcontrol := h.2 0x0A (mem_of_mem_trim hmem)
  exact hcontrol (by decide)

theorem canonicalHeaders_names {host : Text} {requiredHeaders : List Pair}
    (hvalid : requiredHeaders.all validHeader = true) {header : Pair}
    (hmem : header ∈ canonicalHeaders host requiredHeaders) :
    ∀ byte ∈ header.1, isLowercase byte = true ∨ byte = 0x2D ∨ isDigit byte = true := by
  rcases mem_canonicalHeaders.mp hmem with rfl | hrequired
  · change ∀ byte ∈ utf8 "host", isLowercase byte = true ∨ byte = 0x2D ∨ isDigit byte = true
    decide +kernel
  · exact validHeader_name (List.all_eq_true.mp hvalid header hrequired)

theorem signedHeaders_injective {left right : List Pair} (hleft : ∀ header ∈ left, 0x3B ∉ header.1)
    (hright : ∀ header ∈ right, 0x3B ∉ header.1) (hnil : left ≠ []) (hnil' : right ≠ [])
    (h : signedHeaders left = signedHeaders right) : left.map Prod.fst = right.map Prod.fst := by
  have hsplit : ∀ {headers : List Pair}, (∀ header ∈ headers, 0x3B ∉ header.1) → headers ≠ [] →
      (signedHeaders headers).splitOn 0x3B = headers.map Prod.fst := by
    intro headers hheaders hne
    rw [signedHeaders, List.splitOn_intercalate]
    · intro name hname
      obtain ⟨header, hmem, rfl⟩ := List.mem_map.mp hname
      exact hheaders header hmem
    · exact fun heq => hne (List.map_eq_nil_iff.mp heq)
  rw [← hsplit hleft hnil, ← hsplit hright hnil', h]

/-- Rendered under the same names, headers have the same trimmed values if values without a line feed or equal values
stand under each name. -/
theorem renderHeaders_injective {left right : List Pair} (hnames : left.map Prod.fst = right.map Prod.fst)
    (hvalues : ∀ header ∈ left, ∀ other ∈ right, header.1 = other.1 →
      trim header.2 = trim other.2 ∨ 0x0A ∉ trim header.2 ∧ 0x0A ∉ trim other.2)
    (h : renderHeaders left = renderHeaders right) :
    left.map (fun header => (header.1, trim header.2)) = right.map fun header => (header.1, trim header.2) := by
  induction left generalizing right with
  | nil =>
      rw [List.map_nil, eq_comm, List.map_eq_nil_iff] at hnames
      rw [hnames]
  | cons header left ih =>
      cases right with
      | nil => simp at hnames
      | cons other right =>
          rw [List.map_cons, List.map_cons, List.cons.injEq] at hnames
          obtain ⟨hname, hrest⟩ := hnames
          rw [renderHeaders, renderHeaders, List.flatMap_cons, List.flatMap_cons, renderHeader, renderHeader, hname] at h
          simp only [List.append_assoc, List.cons_append, List.append_cancel_left_eq, List.cons.injEq, true_and,
            List.nil_append] at h
          have hsplit : trim header.2 = trim other.2 ∧ renderHeaders left = renderHeaders right := by
            rcases hvalues header List.mem_cons_self other List.mem_cons_self hname with heq | ⟨hplain, hplain'⟩
            · rw [heq] at h
              exact ⟨heq, (List.cons.inj (List.append_cancel_left h)).2⟩
            · exact append_stop_inj hplain hplain' h
          have htail := ih hrest (fun first hfirst second hsecond =>
            hvalues first (List.mem_cons_of_mem _ hfirst) second (List.mem_cons_of_mem _ hsecond)) hsplit.2
          rw [List.map_cons, List.map_cons, htail, hname, hsplit.1]

/-! ### The canonical request -/

/-- The query of a presigned URL, before it is sorted. -/
def fullQuery (target : SigningTarget) (credential : Credential) (request : SigningRequest) (signed : Text) : List Pair :=
  baseQuery credential (request.timestamp.take 8 ++ 0x2F :: (target.region ++ 0x2F :: (service ++ utf8 "/aws4_request")))
    request.timestamp request.expiresSeconds signed ++ request.extraQuery

/-- What the checks leave, and what is signed then. -/
structure Signable (target : SigningTarget) (credential : Credential) (request : SigningRequest) (host : Text)
    (canonical : Canonical) : Prop where
  method : request.method ∈ methods
  secrets : validCredential credential = true
  positive : 0 < request.expiresSeconds
  bounded : request.expiresSeconds ≤ 900
  region : validRegion target.region = true
  authority : hostOf target.endpoint = some host
  headers : request.requiredHeaders.all validHeader = true
  uri : canonical.uri = canonicalUri target.bucketPath request.key
  signed : canonical.signedHeaders = signedHeaders (canonicalHeaders host request.requiredHeaders)
  rendered : canonical.renderedHeaders = renderHeaders (canonicalHeaders host request.requiredHeaders)
  query : canonical.query = canonicalQuery (sortQuery (fullQuery target credential request canonical.signedHeaders))

theorem canonicalAt_spec {target : SigningTarget} {credential : Credential} {request : SigningRequest}
    {canonical : Canonical} (h : canonicalAt target credential request = some canonical) :
    ∃ host, Signable target credential request host canonical := by
  rw [canonicalAt] at h
  obtain ⟨hchecks, h⟩ := Option.ite_none_left_eq_some.mp h
  simp only [Bool.or_eq_true, Bool.not_eq_true', beq_iff_eq, decide_eq_true_eq, not_or, Bool.not_eq_false,
    List.contains_eq_mem, not_lt] at hchecks
  obtain ⟨⟨⟨⟨hmethod, hcredential⟩, hpositive⟩, hbounded⟩, hregion⟩ := hchecks
  obtain ⟨host, hhost, h⟩ := Option.bind_eq_some_iff.mp h
  obtain ⟨date, hdate, h⟩ := Option.bind_eq_some_iff.mp h
  obtain ⟨hheaders, h⟩ := Option.ite_none_left_eq_some.mp h
  obtain ⟨_, h⟩ := Option.ite_none_left_eq_some.mp h
  cases h
  have htake : date = request.timestamp.take 8 := by
    rw [datePart] at hdate
    split_ifs at hdate
    exact (Option.some.inj hdate).symm
  subst htake
  exact ⟨host,
    { method := hmethod
      secrets := hcredential
      positive := Nat.pos_of_ne_zero hpositive
      bounded := hbounded
      region := hregion
      authority := hhost
      headers := by simpa using hheaders
      uri := rfl
      signed := rfl
      rendered := rfl
      query := rfl }⟩

/-- The extra parameters have names of their own. -/
def reserved : List Text := [algorithmName, credentialName, dateName, expiresName, signedHeadersName]

/-- The same request: the order of parameters and headers and the white space around header values do not count. -/
structure SameRequest (left right : SigningRequest) : Prop where
  method : left.method = right.method
  key : left.key = right.key
  expiresSeconds : left.expiresSeconds = right.expiresSeconds
  extraQuery : left.extraQuery.Perm right.extraQuery
  requiredHeaders : (left.requiredHeaders.map fun header => (header.1, trim header.2)).Perm
    (right.requiredHeaders.map fun header => (header.1, trim header.2))
  timestamp : left.timestamp = right.timestamp

theorem method_plain {method : Text} (h : method ∈ methods) : 0x0A ∉ method := by
  revert method
  decide

theorem canonicalQuery_injective {left right : List Pair} (hleft : left ≠ []) (hright : right ≠ [])
    (h : canonicalQuery left = canonicalQuery right) : left = right := by
  have hdecode : ∀ {query : List Pair}, query ≠ [] → decodeQuery (canonicalQuery query) = query := by
    intro query hquery
    exact decodeQuery_encoded (by decide) (by decide) (by decide) hquery
  rw [← hdecode hleft, ← hdecode hright, h]

theorem canonicalUri_injective {bucketPath : Option Text} {left right : Text}
    (h : canonicalUri bucketPath left = canonicalUri bucketPath right) : left = right := by
  cases bucketPath with
  | none => exact percentEncode_injective false (List.cons.inj h).2
  | some bucket =>
      have hkeys := List.append_cancel_left (List.cons.inj h).2
      exact percentEncode_injective false (List.cons.inj hkeys).2

theorem decimal_injective : Function.Injective Json.decimal :=
  Function.LeftInverse.injective Json.decimalValue_decimal

theorem sortQuery_perm (query : List Pair) : (sortQuery query).Perm query := List.perm_insertionSort _ _

theorem fullQuery_ne_nil (target : SigningTarget) (credential : Credential) (request : SigningRequest) (signed : Text) :
    sortQuery (fullQuery target credential request signed) ≠ [] := by
  intro hnil
  have hperm := (sortQuery_perm (fullQuery target credential request signed)).length_eq
  rw [hnil] at hperm
  simp [fullQuery, baseQuery] at hperm

/-- Parameters with names of their own are recovered from the whole query, and so are the time and the lifetime. -/
theorem fullQuery_perm {target : SigningTarget} {credential : Credential} {left right : SigningRequest}
    {signed signed' : Text} (hleft : ∀ pair ∈ left.extraQuery, pair.1 ∉ reserved)
    (hright : ∀ pair ∈ right.extraQuery, pair.1 ∉ reserved)
    (h : (fullQuery target credential left signed).Perm (fullQuery target credential right signed')) :
    left.extraQuery.Perm right.extraQuery ∧ left.timestamp = right.timestamp ∧
      left.expiresSeconds = right.expiresSeconds := by
  have hextra : ∀ {request : SigningRequest} {signed : Text}, (∀ pair ∈ request.extraQuery, pair.1 ∉ reserved) →
      (fullQuery target credential request signed).filter (fun pair => !reserved.contains pair.1) =
        request.extraQuery := by
    intro request signed hrequest
    rw [fullQuery, List.filter_append]
    have hbase : (baseQuery credential (request.timestamp.take 8 ++ 0x2F :: (target.region ++
        0x2F :: (service ++ utf8 "/aws4_request"))) request.timestamp request.expiresSeconds signed).filter
          (fun pair => !reserved.contains pair.1) = [] := by
      rfl
    rw [hbase, List.nil_append, List.filter_eq_self]
    intro pair hmem
    simpa using hrequest pair hmem
  have hnamed : ∀ {request : SigningRequest} {signed : Text} (name value : Text), name ∈ reserved →
      (∀ pair ∈ request.extraQuery, pair.1 ∉ reserved) →
      (name, value) ∈ fullQuery target credential request signed →
      (name, value) ∈ baseQuery credential (request.timestamp.take 8 ++ 0x2F :: (target.region ++
        0x2F :: (service ++ utf8 "/aws4_request"))) request.timestamp request.expiresSeconds signed := by
    intro request signed name value hname hrequest hmem
    rcases List.mem_append.mp hmem with hbase | hextra
    · exact hbase
    · exact absurd hname (hrequest _ hextra)
  refine ⟨?_, ?_, ?_⟩
  · have hfilter := h.filter fun pair => !reserved.contains pair.1
    rwa [hextra hleft, hextra hright] at hfilter
  · have hmem : (dateName, left.timestamp) ∈ fullQuery target credential left signed := by
      simp [fullQuery, baseQuery]
    have hfound := hnamed dateName left.timestamp (by decide) hright (h.subset hmem)
    simp only [baseQuery, List.mem_cons, Prod.mk.injEq, List.not_mem_nil, or_false] at hfound
    rcases hfound with hother | hother | hdate | hother | hother
    · exact absurd hother.1 (by decide)
    · exact absurd hother.1 (by decide)
    · exact hdate.2
    · exact absurd hother.1 (by decide)
    · exact absurd hother.1 (by decide)
  · have hmem : (expiresName, Json.decimal left.expiresSeconds) ∈ fullQuery target credential left signed := by
      simp [fullQuery, baseQuery]
    have hfound := hnamed expiresName (Json.decimal left.expiresSeconds) (by decide) hright (h.subset hmem)
    simp only [baseQuery, List.mem_cons, Prod.mk.injEq, List.not_mem_nil, or_false] at hfound
    rcases hfound with hother | hother | hother | hexpires | hother
    · exact absurd hother.1 (by decide)
    · exact absurd hother.1 (by decide)
    · exact absurd hother.1 (by decide)
    · exact decimal_injective hexpires.2
    · exact absurd hother.1 (by decide)

/-- Header names and trimmed values are recovered from the names that are signed and the text that is rendered. -/
theorem canonicalHeaders_injective {host : Text} {left right : List Pair} (hleft : left.all validHeader = true)
    (hright : right.all validHeader = true)
    (hsigned : signedHeaders (canonicalHeaders host left) = signedHeaders (canonicalHeaders host right))
    (hrendered : renderHeaders (canonicalHeaders host left) = renderHeaders (canonicalHeaders host right)) :
    (left.map fun header => (header.1, trim header.2)).Perm (right.map fun header => (header.1, trim header.2)) := by
  have hseparator : ∀ {headers : List Pair}, headers.all validHeader = true →
      ∀ header ∈ canonicalHeaders host headers, 0x3B ∉ header.1 := by
    intro headers hvalid header hmem hsemicolon
    rcases canonicalHeaders_names hvalid hmem 0x3B hsemicolon with h | h | h
    · exact absurd h (by decide)
    · exact absurd h (by decide)
    · exact absurd h (by decide)
  have hne : ∀ headers : List Pair, canonicalHeaders host headers ≠ [] := by
    intro headers hnil
    have hmem : (utf8 "host", host) ∈ canonicalHeaders host headers := mem_canonicalHeaders.mpr (.inl rfl)
    rw [hnil] at hmem
    cases hmem
  have hnames := signedHeaders_injective (hseparator hleft) (hseparator hright) (hne left) (hne right) hsigned
  have hmapped := renderHeaders_injective hnames (by
    intro header hmem other hother hname
    rcases mem_canonicalHeaders.mp hmem with rfl | hrequired
    · rcases mem_canonicalHeaders.mp hother with rfl | hrequired'
      · exact .inl rfl
      · exact absurd hname.symm (validHeader_ne_host (List.all_eq_true.mp hright other hrequired'))
    · rcases mem_canonicalHeaders.mp hother with rfl | hrequired'
      · exact absurd hname (validHeader_ne_host (List.all_eq_true.mp hleft header hrequired))
      · exact .inr ⟨validHeader_value (List.all_eq_true.mp hleft header hrequired),
          validHeader_value (List.all_eq_true.mp hright other hrequired')⟩) hrendered
  have hperm : ∀ headers : List Pair, ((canonicalHeaders host headers).map fun header => (header.1, trim header.2)).Perm
      ((utf8 "host", trim host) :: headers.map fun header => (header.1, trim header.2)) := by
    intro headers
    exact (KeyOrder.sortByKey_perm Prod.fst ((utf8 "host", host) :: headers)).map fun header => (header.1, trim header.2)
  have hcons := (hperm left).symm.trans (hmapped ▸ hperm right)
  exact hcons.cons_inv

theorem canonicalRequestAt_injective {target : SigningTarget} {credential : Credential} {left right : SigningRequest}
    {text : Text} (hleft : ∀ pair ∈ left.extraQuery, pair.1 ∉ reserved)
    (hright : ∀ pair ∈ right.extraQuery, pair.1 ∉ reserved)
    (h : canonicalRequestAt target credential left = some text)
    (h' : canonicalRequestAt target credential right = some text) : SameRequest left right := by
  obtain ⟨first, hfirst, rfl⟩ := Option.map_eq_some_iff.mp h
  obtain ⟨second, hsecond, heq⟩ := Option.map_eq_some_iff.mp h'
  obtain ⟨host, hsignable⟩ := canonicalAt_spec hfirst
  obtain ⟨host', hsignable'⟩ := canonicalAt_spec hsecond
  have hhost : host' = host := Option.some.inj (hsignable'.authority.symm.trans hsignable.authority)
  subst hhost
  have hline : Separator 0x0A := .inl rfl
  -- the text is taken apart line by line, from both ends
  obtain ⟨hmethod, hbehind⟩ := append_stop_inj (method_plain hsignable.method) (method_plain hsignable'.method) heq.symm
  obtain ⟨huri, hbehind⟩ := append_stop_inj (hsignable.uri ▸ hline.canonicalUri _ _)
    (hsignable'.uri ▸ hline.canonicalUri _ _) hbehind
  obtain ⟨hquery, hbehind⟩ := append_stop_inj (hsignable.query ▸ hline.canonicalQuery _)
    (hsignable'.query ▸ hline.canonicalQuery _) hbehind
  have hfront : first.renderedHeaders ++ 0x0A :: first.signedHeaders =
      second.renderedHeaders ++ 0x0A :: second.signedHeaders := by
    refine List.append_cancel_right (?_ : _ ++ 0x0A :: utf8 "UNSIGNED-PAYLOAD" = _ ++ 0x0A :: utf8 "UNSIGNED-PAYLOAD")
    simpa using hbehind
  have hplain : ∀ {headers : List Pair}, headers.all validHeader = true →
      0x0A ∉ signedHeaders (canonicalHeaders host' headers) := by
    intro headers hvalid hmem
    rcases mem_intercalate hmem with hseparator | ⟨name, hname, hmem⟩
    · exact absurd hseparator (by decide)
    · obtain ⟨header, hheader, rfl⟩ := List.mem_map.mp hname
      rcases canonicalHeaders_names hvalid hheader 0x0A hmem with h | h | h
      · exact absurd h (by decide)
      · exact absurd h (by decide)
      · exact absurd h (by decide)
  obtain ⟨hrendered, hsigned⟩ := append_last_stop_inj (hsignable.signed ▸ hplain hsignable.headers)
    (hsignable'.signed ▸ hplain hsignable'.headers) hfront
  rw [hsignable.rendered, hsignable'.rendered] at hrendered
  have hheaders := canonicalHeaders_injective hsignable.headers hsignable'.headers
    (by rw [← hsignable.signed, ← hsignable'.signed, hsigned]) hrendered
  rw [hsignable.query, hsignable'.query] at hquery
  have hsorted := canonicalQuery_injective (fullQuery_ne_nil _ _ _ _) (fullQuery_ne_nil _ _ _ _) hquery
  have hperm : (fullQuery target credential left first.signedHeaders).Perm
      (fullQuery target credential right second.signedHeaders) := by
    have hfirst := sortQuery_perm (fullQuery target credential left first.signedHeaders)
    rw [hsorted] at hfirst
    exact hfirst.symm.trans (sortQuery_perm _)
  obtain ⟨hextra, htimestamp, hexpires⟩ := fullQuery_perm hleft hright hperm
  rw [hsignable.uri, hsignable'.uri] at huri
  exact
    { method := hmethod
      key := canonicalUri_injective huri
      expiresSeconds := hexpires
      extraQuery := hextra
      requiredHeaders := hheaders
      timestamp := htimestamp }

/-! ### The URL -/

theorem encodedLE_total (left right : Pair) : EncodedLE left right ∨ EncodedLE right left := by
  rw [EncodedLE, EncodedLE]
  by_cases hlt : percentEncode left.1 true < percentEncode right.1 true
  · exact .inl (.inl hlt)
  by_cases hgt : percentEncode right.1 true < percentEncode left.1 true
  · exact .inr (.inl hgt)
  have heq := List.le_antisymm (List.not_lt.mp hgt) (List.not_lt.mp hlt)
  rcases Std.Total.total (r := fun first second : Text => first ≤ second) (percentEncode left.2 true)
    (percentEncode right.2 true) with hle | hle
  · exact .inl (.inr ⟨heq, hle⟩)
  · exact .inr (.inr ⟨heq.symm, hle⟩)

theorem encodedLE_trans {first second third : Pair} (h : EncodedLE first second) (h' : EncodedLE second third) :
    EncodedLE first third := by
  rcases h with hlt | ⟨heq, hle⟩
  · rcases h' with hlt' | ⟨heq', _⟩
    · exact .inl (List.lt_trans hlt hlt')
    · exact .inl (heq' ▸ hlt)
  · rcases h' with hlt' | ⟨heq', hle'⟩
    · exact .inl (heq ▸ hlt')
    · exact .inr ⟨heq.trans heq', List.le_trans hle hle'⟩

theorem sortQuery_sorted (query : List Pair) : (sortQuery query).Pairwise EncodedLE := by
  have : Std.Total EncodedLE := ⟨encodedLE_total⟩
  have : IsTrans Pair EncodedLE := ⟨fun _ _ _ => encodedLE_trans⟩
  exact List.pairwise_insertionSort _ _

def objectPath (bucketPath : Option Text) (key : Text) : Text :=
  match bucketPath with
  | none => 0x2F :: key
  | some bucket => 0x2F :: (bucket ++ 0x2F :: key)

/-- The decoded path and the decoded parameters of what stands behind the authority of a URL. -/
def decodeTarget (text : Text) : Text × List Pair :=
  (decode (text.takeWhile fun byte => byte != 0x3F), decodeQuery (text.dropWhile fun byte => byte != 0x3F).tail)

/-- The URL decodes to the path and the parameters of the request, sorted as encoded, and the signature of its canonical
request. -/
def SignedFor (prims : Primitives) (hmac : List UInt8 → List UInt8 → List UInt8) (target : SigningTarget)
    (credential : Credential) (request : SigningRequest) (url : Text) : Prop :=
  ∃ (text : Text) (canonical : Canonical) (query : List Pair), canonicalAt target credential request = some canonical ∧
    url = target.endpoint ++ text ∧
    decodeTarget text = (objectPath target.bucketPath request.key,
      query ++ [(signatureName, signatureOf prims hmac target credential request canonical)]) ∧
    query.Perm (fullQuery target credential request canonical.signedHeaders) ∧ query.Pairwise EncodedLE

theorem decode_canonicalUri (bucketPath : Option Text) (key : Text) :
    decode (canonicalUri bucketPath key) = objectPath bucketPath key := by
  cases bucketPath with
  | none => rw [canonicalUri, objectPath, decode_cons_of_ne (by decide), decode_percentEncode]
  | some bucket =>
      rw [canonicalUri, objectPath, decode_cons_of_ne (by decide), percentEncode,
        decode_encode_append (unreserved_percent true), decode_cons_of_ne (by decide), decode_percentEncode]

theorem hexEncode_unreserved (bytes : List UInt8) : ∀ byte ∈ hexEncode bytes, unreserved true byte = true := by
  have hdigit : ∀ digit < 16, unreserved true (hexDigit digit) = true := by decide
  induction bytes with
  | nil =>
      intro byte hmem
      cases hmem
  | cons first rest ih =>
      have hfirst := first.toNat_lt
      rw [hexEncode, List.forall_mem_cons, List.forall_mem_cons]
      exact ⟨hdigit _ (by omega), hdigit _ (by omega), ih⟩

variable (prims : Primitives) (hmac : List UInt8 → List UInt8 → List UInt8)

theorem presignTargetAt_spec {target : SigningTarget} {credential : Credential} {request : SigningRequest} {url : Text}
    (h : presignTargetAt prims hmac target credential request = some url) :
    SignedFor prims hmac target credential request url ∧ 0 < request.expiresSeconds ∧ request.expiresSeconds ≤ 900 := by
  obtain ⟨canonical, hcanonical, rfl⟩ := Option.map_eq_some_iff.mp h
  obtain ⟨host, hsignable⟩ := canonicalAt_spec hcanonical
  have hmark : Separator 0x3F := .inr rfl
  refine ⟨?_, hsignable.positive, hsignable.bounded⟩
  refine ⟨_, canonical, sortQuery (fullQuery target credential request canonical.signedHeaders), hcanonical, rfl, ?_,
    sortQuery_perm _, sortQuery_sorted _⟩
  generalize hsignature : signatureOf prims hmac target credential request canonical = signature
  have hsigned : canonical.query ++ 0x26 :: (signatureName ++ 0x3D :: signature) =
      canonicalQuery (sortQuery (fullQuery target credential request canonical.signedHeaders) ++
        [(signatureName, signature)]) := by
    have hname : encode (unreserved true) signatureName = signatureName :=
      encode_of_keep (by decide +kernel)
    have hvalue : encode (unreserved true) signature = signature := by
      rw [← hsignature]
      exact encode_of_keep (hexEncode_unreserved _)
    rw [canonicalQuery, encodePairs, List.map_append, List.map_singleton, joinPairs_concat, hname, hvalue,
      hsignable.query]
    · rfl
    · exact fun hnil => fullQuery_ne_nil _ _ _ _ (List.map_eq_nil_iff.mp hnil)
  have huri : 0x3F ∉ canonical.uri := hsignable.uri ▸ hmark.canonicalUri _ _
  rw [hsigned, decodeTarget, takeWhile_append_stop huri, dropWhile_append_stop huri, hsignable.uri,
    decode_canonicalUri, List.tail_cons, canonicalQuery, decodeQuery_encoded (by decide) (by decide) (by decide)]
  simp

end Skydriver.R2Signing
