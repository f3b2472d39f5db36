import Skydriver.Control.Signing

/-!
# Grants of presigned URLs

A grant is a set of presigned URLs for one object, all with one lifetime.  The control plane builds it from the stored
configuration and the decrypted credential of a driver, for R2 and for AWS S3, for a whole object and for the parts of a
multipart upload.
-/

namespace Skydriver

def containsText (needle text : Text) : Bool := decide (needle <:+: text)

def dots : Text := utf8 ".."

/-- What a grant is built with: the parsers of the stored configuration and credential, the clock in milliseconds, and
each further reading of it as a timestamp. -/
structure GrantSource (Config : Type) where
  parseConfig : Text → Option Config
  parseCredential : List UInt8 → Option R2Signing.Credential
  nowMs : Nat
  amzTimestamp : Nat → Option Text

structure AccessGrant where
  method : Text
  url : Text
  verifyUrl : Option Text
  multipartCreateUrl : Option Text
  expiresAt : Nat

def AccessGrant.urls (grant : AccessGrant) : List Text :=
  grant.url :: (grant.verifyUrl.toList ++ grant.multipartCreateUrl.toList)

structure MultipartGrant where
  schema : Text
  uploadId : Text
  parts : List (Nat × Text)
  completeUrl : Text
  abortUrl : Text
  verifyUrl : Text
  expiresAt : Nat

def MultipartGrant.urls (grant : MultipartGrant) : List Text :=
  grant.parts.map Prod.snd ++ [grant.completeUrl, grant.abortUrl, grant.verifyUrl]

def put : Text := utf8 "PUT"

def noReplace : Percent.Pair := (utf8 "if-none-match", utf8 "*")

def uploadsParameter : Percent.Pair := (utf8 "uploads", [])

def partNumberName : Text := utf8 "partNumber"

def uploadIdName : Text := utf8 "uploadId"

/-- The checks of a request for multipart URLs. -/
def validMultipart (uploadId : Text) (firstPart partCount : UInt32) : Bool :=
  !(uploadId.isEmpty || decide (1024 < uploadId.length) ||
    uploadId.any (fun byte => byte == 0 || byte == 0x0D || byte == 0x0A) || firstPart == 0 || partCount == 0 ||
    decide (64 < partCount) || decide (10001 < firstPart.toNat + partCount.toNat))

def grantLifetime (nowMs maximumExpiresAt : Nat) : Nat := min (maximumExpiresAt - nowMs / 1000) 900

/-! ### R2 -/

namespace R2Signing

variable (prims : Primitives) (hmac : List UInt8 → List UInt8 → List UInt8)

structure Config where
  endpoint : Text
  bucket : Text
  keyPrefix : Text

def validComponent (value : Text) (maximum : Nat) : Bool :=
  !value.isEmpty && decide (value.length ≤ maximum) &&
    value.all fun byte => isLowercase byte || isDigit byte || byte == 0x2D

def hostSuffix : Text := utf8 ".r2.cloudflarestorage.com"

def validConfig (config : Config) : Bool :=
  match hostOf config.endpoint with
  | none => false
  | some authority =>
      (hostSuffix.isSuffixOf authority || (utf8 ".eu.r2.cloudflarestorage.com").isSuffixOf authority ||
          (utf8 ".fedramp.r2.cloudflarestorage.com").isSuffixOf authority) &&
        validComponent config.bucket 63 &&
        (config.keyPrefix.isEmpty ||
          config.keyPrefix.getLast? == some 0x2F && decide (config.keyPrefix.length ≤ 1024) &&
            config.keyPrefix.head? != some 0x2F && !containsText dots config.keyPrefix)

def objectKey (config : Config) (storageKey : Text) : Option Text :=
  if storageKey.isEmpty || storageKey.head? == some 0x2F || containsText dots storageKey ||
      decide (4096 < storageKey.length) then none
  else some (config.keyPrefix ++ storageKey)

def region : Text := utf8 "auto"

def signingTarget (config : Config) : SigningTarget := ⟨config.endpoint, region, some config.bucket⟩

def presignQueryAt (config : Config) (credential : Credential) (request : SigningRequest) : Option Text :=
  if !validConfig config || !validCredential credential then none
  else presignTargetAt prims hmac (signingTarget config) credential request

/-- `presign`, `presign_no_replace`, `presign_query` and `presign_query_no_replace`: they read the clock and differ in
the query and in whether an existing object must not be replaced. -/
def presign (method : Text) (config : Config) (credential : Credential) (key : Text) (expiresSeconds : Nat)
    (query requiredHeaders : List Percent.Pair) (reading : Option Text) : Option Text := do
  let timestamp ← reading
  presignQueryAt prims hmac config credential ⟨method, key, expiresSeconds, query, requiredHeaders, timestamp⟩

def accessGrantFromPlaintext (source : GrantSource Config) (method configJson storageKey : Text)
    (plaintext : List UInt8) (maximumExpiresAt : Nat) : Option AccessGrant := do
  let config ← source.parseConfig configJson
  let credential ← source.parseCredential plaintext
  let key ← objectKey config storageKey
  let lifetime := grantLifetime source.nowMs maximumExpiresAt
  if method = put then
    let url ← presign prims hmac method config credential key lifetime [] [noReplace] (source.amzTimestamp 0)
    let verifyUrl ← presign prims hmac (utf8 "GET") config credential key lifetime [] [] (source.amzTimestamp 1)
    let multipartCreateUrl ← presign prims hmac (utf8 "POST") config credential key lifetime [uploadsParameter]
      [noReplace] (source.amzTimestamp 2)
    return ⟨method, url, some verifyUrl, some multipartCreateUrl, source.nowMs / 1000 + lifetime⟩
  else
    let url ← presign prims hmac method config credential key lifetime [] [] (source.amzTimestamp 0)
    return ⟨method, url, none, none, source.nowMs / 1000 + lifetime⟩

def multipartGrantFromPlaintext (source : GrantSource Config) (configJson storageKey : Text) (plaintext : List UInt8)
    (uploadId : Text) (firstPart partCount : UInt32) (maximumExpiresAt : Nat) : Option MultipartGrant :=
  if !validMultipart uploadId firstPart partCount then none
  else do
    let config ← source.parseConfig configJson
    let credential ← source.parseCredential plaintext
    let key ← objectKey config storageKey
    let lifetime := grantLifetime source.nowMs maximumExpiresAt
    let parts ← (List.range partCount.toNat).mapM fun index => do
      let partNumber := firstPart.toNat + index
      let url ← presign prims hmac put config credential key lifetime
        [(partNumberName, Json.decimal partNumber), (uploadIdName, uploadId)] [] (source.amzTimestamp index)
      return (partNumber, url)
    let completeUrl ← presign prims hmac (utf8 "POST") config credential key lifetime [(uploadIdName, uploadId)]
      [noReplace] (source.amzTimestamp partCount.toNat)
    let abortUrl ← presign prims hmac (utf8 "DELETE") config credential key lifetime [(uploadIdName, uploadId)] []
      (source.amzTimestamp (partCount.toNat + 1))
    let verifyUrl ← presign prims hmac (utf8 "GET") config credential key lifetime [] []
      (source.amzTimestamp (partCount.toNat + 2))
    return ⟨utf8 "skydriver.vfs.r2-multipart-grant.v1", uploadId, parts, completeUrl, abortUrl, verifyUrl,
      source.nowMs / 1000 + lifetime⟩

end R2Signing

/-! ### AWS S3 -/

namespace AwsS3Signing

open R2Signing (Credential SigningTarget SigningRequest isLowercase isUppercase isDigit presignTargetAt)

variable (prims : Primitives) (hmac : List UInt8 → List UInt8 → List UInt8)

structure Config where
  region : Text
  bucket : Text
  expectedBucketOwner : Text
  keyPrefix : Text

def ownerHeader : Text := utf8 "x-amz-expected-bucket-owner"

/-- `chars().any(char::is_control)`, on UTF-8. -/
def hasControl : Text → Bool
  | [] => false
  | [byte] => R2Signing.isControl byte
  | first :: second :: rest =>
      R2Signing.isControl first || (first == 0xC2 && decide (second < 0xA0)) || hasControl (second :: rest)

def validLabel (value : Text) : Bool := value.all fun byte => isLowercase byte || isDigit byte || byte == 0x2D

def validRegion (value : Text) : Bool :=
  decide (6 ≤ value.length) && decide (value.length ≤ 32) && value.head?.any isLowercase && value.getLast?.any isDigit &&
    validLabel value && !containsText (utf8 "--") value && !(utf8 "cn-").isPrefixOf value &&
    !(utf8 "us-iso-").isPrefixOf value && !(utf8 "us-isob-").isPrefixOf value && !(utf8 "us-isof-").isPrefixOf value &&
    !(utf8 "eu-isoe-").isPrefixOf value

def isAlphanumeric (byte : UInt8) : Bool := isLowercase byte || isUppercase byte || isDigit byte

def validBucket (value : Text) : Bool :=
  decide (3 ≤ value.length) && decide (value.length ≤ 63) && validLabel value && value.head?.any isAlphanumeric &&
    value.getLast?.any isAlphanumeric && !(utf8 "xn--").isPrefixOf value && !(utf8 "sthree-").isPrefixOf value &&
    !(utf8 "-s3alias").isSuffixOf value && !(utf8 "--ol-s3").isSuffixOf value

def validConfig (config : Config) : Bool :=
  validRegion config.region && validBucket config.bucket && config.expectedBucketOwner.length == 12 &&
    config.expectedBucketOwner.all isDigit &&
    (config.keyPrefix.isEmpty ||
      config.keyPrefix.getLast? == some 0x2F && decide (config.keyPrefix.length ≤ 1024) &&
        config.keyPrefix.head? != some 0x2F && !containsText dots config.keyPrefix && !hasControl config.keyPrefix)

def validCredential (credential : Credential) : Bool :=
  decide (16 ≤ credential.accessKeyId.length) && decide (credential.accessKeyId.length ≤ 128) &&
    credential.accessKeyId.all isAlphanumeric && decide (16 ≤ credential.secretAccessKey.length) &&
    decide (credential.secretAccessKey.length ≤ 256) &&
    credential.secretAccessKey.all fun byte => decide (0x21 ≤ byte) && decide (byte ≤ 0x7E)

def objectKey (config : Config) (storageKey : Text) : Option Text :=
  if storageKey.isEmpty || storageKey.head? == some 0x2F || containsText dots storageKey ||
      decide (4096 < storageKey.length) || hasControl storageKey then none
  else some (config.keyPrefix ++ storageKey)

def endpoint (config : Config) : Text :=
  utf8 "https://" ++ config.bucket ++ utf8 ".s3." ++ config.region ++ utf8 ".amazonaws.com"

def signingTarget (config : Config) : SigningTarget := ⟨endpoint config, config.region, none⟩

def sign (method : Text) (config : Config) (credential : Credential) (key : Text) (expiresSeconds : Nat)
    (query extraHeaders : List Percent.Pair) (reading : Option Text) : Option Text :=
  if !validCredential credential then none
  else if !validConfig config then none
  else do
    let timestamp ← reading
    presignTargetAt prims hmac (signingTarget config) credential
      ⟨method, key, expiresSeconds, query, (ownerHeader, config.expectedBucketOwner) :: extraHeaders, timestamp⟩

/-- A grant with the headers that the client has to send. -/
structure AwsAccessGrant extends AccessGrant where
  multipartCreateRequiresNoReplace : Bool
  requiredHeaders : List Percent.Pair

structure AwsMultipartGrant extends MultipartGrant where
  requiredHeaders : List Percent.Pair

def accessGrantFromPlaintext (source : GrantSource Config) (method configJson storageKey : Text)
    (plaintext : List UInt8) (maximumExpiresAt : Nat) : Option AwsAccessGrant := do
  let config ← source.parseConfig configJson
  let credential ← source.parseCredential plaintext
  let key ← objectKey config storageKey
  let lifetime := grantLifetime source.nowMs maximumExpiresAt
  let required := if method = put then [noReplace] else []
  let url ← sign prims hmac method config credential key lifetime [] required (source.amzTimestamp 0)
  let verifyUrl :=
    if method = put then
      sign prims hmac (utf8 "GET") config credential key lifetime [] [] (source.amzTimestamp 1)
    else none
  let multipartCreateUrl :=
    if method = put then
      sign prims hmac (utf8 "POST") config credential key lifetime [uploadsParameter] [] (source.amzTimestamp 2)
    else none
  return { method, url, verifyUrl, multipartCreateUrl, expiresAt := source.nowMs / 1000 + lifetime,
           multipartCreateRequiresNoReplace := false,
           requiredHeaders := [(ownerHeader, config.expectedBucketOwner)] }

def multipartGrantFromPlaintext (source : GrantSource Config) (configJson storageKey : Text) (plaintext : List UInt8)
    (uploadId : Text) (firstPart partCount : UInt32) (maximumExpiresAt : Nat) : Option AwsMultipartGrant :=
  if !validMultipart uploadId firstPart partCount then none
  else do
    let config ← source.parseConfig configJson
    let credential ← source.parseCredential plaintext
    let key ← objectKey config storageKey
    let lifetime := grantLifetime source.nowMs maximumExpiresAt
    let parts ← (List.range partCount.toNat).mapM fun index => do
      let partNumber := firstPart.toNat + index
      let url ← sign prims hmac put config credential key lifetime
        [(partNumberName, Json.decimal partNumber), (uploadIdName, uploadId)] [] (source.amzTimestamp index)
      return (partNumber, url)
    let completeUrl ← sign prims hmac (utf8 "POST") config credential key lifetime [(uploadIdName, uploadId)]
      [noReplace] (source.amzTimestamp partCount.toNat)
    let abortUrl ← sign prims hmac (utf8 "DELETE") config credential key lifetime [(uploadIdName, uploadId)] []
      (source.amzTimestamp (partCount.toNat + 1))
    let verifyUrl ← sign prims hmac (utf8 "GET") config credential key lifetime [] []
      (source.amzTimestamp (partCount.toNat + 2))
    return { schema := utf8 "skydriver.vfs.s3-multipart-grant.v1", uploadId, parts, completeUrl, abortUrl, verifyUrl,
             expiresAt := source.nowMs / 1000 + lifetime,
             requiredHeaders := [(ownerHeader, config.expectedBucketOwner)] }

end AwsS3Signing

/-! ### What a grant allows -/

open R2Signing (SigningTarget SigningRequest Credential SignedFor presignTargetAt presignTargetAt_spec)

/-- The URL is for this object and this long. -/
def UrlFor (prims : Primitives) (hmac : List UInt8 → List UInt8 → List UInt8) (target : SigningTarget)
    (credential : Credential) (key : Text) (lifetime : Nat) (query : List Percent.Pair) (url : Text) : Prop :=
  ∃ request : SigningRequest, request.key = key ∧ request.expiresSeconds = lifetime ∧ request.extraQuery = query ∧
    SignedFor prims hmac target credential request url

/-- A lifetime of a grant made now that ends in time. -/
structure Timely (nowMs maximumExpiresAt lifetime : Nat) : Prop where
  positive : 0 < lifetime
  bounded : lifetime ≤ 900
  inTime : nowMs / 1000 + lifetime ≤ maximumExpiresAt

variable {prims : Primitives} {hmac : List UInt8 → List UInt8 → List UInt8}

theorem timely_of_bounds {nowMs maximumExpiresAt : Nat}
    (h : 0 < grantLifetime nowMs maximumExpiresAt ∧ grantLifetime nowMs maximumExpiresAt ≤ 900) :
    Timely nowMs maximumExpiresAt (grantLifetime nowMs maximumExpiresAt) := by
  refine ⟨h.1, h.2, ?_⟩
  have hpositive := h.1
  rw [grantLifetime] at hpositive ⊢
  omega

/-- Every URL is for this object and equally long. -/
def GrantFor (prims : Primitives) (hmac : List UInt8 → List UInt8 → List UInt8) (target : SigningTarget)
    (credential : Credential) (key : Text) (lifetime : Nat) (urls : List Text) : Prop :=
  ∀ url ∈ urls, ∃ query, UrlFor prims hmac target credential key lifetime query url

/-- The URLs of the parts are those of a range of part numbers, in its order. -/
structure PartsFor (prims : Primitives) (hmac : List UInt8 → List UInt8 → List UInt8) (target : SigningTarget)
    (credential : Credential) (key : Text) (lifetime : Nat) (uploadId : Text) (firstPart partCount : UInt32)
    (parts : List (Nat × Text)) : Prop where
  numbers : parts.map Prod.fst = List.range' firstPart.toNat partCount.toNat
  range : ∀ part ∈ parts, 1 ≤ part.1 ∧ part.1 ≤ 10000
  urls : ∀ part ∈ parts, UrlFor prims hmac target credential key lifetime
    [(partNumberName, Json.decimal part.1), (uploadIdName, uploadId)] part.2

theorem validMultipart_range {uploadId : Text} {firstPart partCount : UInt32}
    (h : validMultipart uploadId firstPart partCount = true) :
    1 ≤ firstPart.toNat ∧ firstPart.toNat + partCount.toNat ≤ 10001 := by
  simp only [validMultipart, Bool.not_eq_true', Bool.or_eq_false_iff, decide_eq_false_iff_not, beq_eq_false_iff_ne] at h
  obtain ⟨⟨⟨⟨_, hfirst⟩, _⟩, _⟩, hrange⟩ := h
  refine ⟨?_, by omega⟩
  rw [Nat.one_le_iff_ne_zero]
  exact fun hzero => hfirst (UInt32.toNat_inj.mp hzero)

theorem mapM_urls {sign : Nat → Option Text} {number : Nat → Nat} {indices : List Nat} {parts : List (Nat × Text)}
    (h : (indices.mapM fun index => do
      let url ← sign index
      return (number index, url)) = some parts) :
    parts.map Prod.fst = indices.map number ∧
      ∀ part ∈ parts, ∃ index ∈ indices, part.1 = number index ∧ sign index = some part.2 := by
  induction indices generalizing parts with
  | nil =>
      cases h
      exact ⟨rfl, fun _ hmem => by cases hmem⟩
  | cons index indices ih =>
      rw [List.mapM_cons] at h
      obtain ⟨part, hpart, h⟩ := Option.bind_eq_some_iff.mp h
      obtain ⟨rest, hrest, h⟩ := Option.bind_eq_some_iff.mp h
      obtain ⟨url, hurl, hpart⟩ := Option.bind_eq_some_iff.mp hpart
      cases hpart
      cases h
      obtain ⟨hnumbers, hparts⟩ := ih hrest
      refine ⟨by rw [List.map_cons, List.map_cons, hnumbers], ?_⟩
      intro found hmem
      rcases List.mem_cons.mp hmem with rfl | hmem
      · exact ⟨index, List.mem_cons_self, rfl, hurl⟩
      · obtain ⟨other, hother, hfound⟩ := hparts found hmem
        exact ⟨other, List.mem_cons_of_mem _ hother, hfound⟩

theorem partsFor_of_mapM {target : SigningTarget} {credential : Credential} {key uploadId : Text} {lifetime : Nat}
    {firstPart partCount : UInt32} {parts : List (Nat × Text)} {sign : Nat → Option Text}
    (hvalid : validMultipart uploadId firstPart partCount = true)
    (hsign : ∀ index url, sign index = some url → UrlFor prims hmac target credential key lifetime
      [(partNumberName, Json.decimal (firstPart.toNat + index)), (uploadIdName, uploadId)] url)
    (h : ((List.range partCount.toNat).mapM fun index => do
      let url ← sign index
      return (firstPart.toNat + index, url)) = some parts) :
    PartsFor prims hmac target credential key lifetime uploadId firstPart partCount parts := by
  obtain ⟨hnumbers, hparts⟩ := mapM_urls h
  obtain ⟨hfirst, hlast⟩ := validMultipart_range hvalid
  constructor
  · rw [hnumbers, List.range'_eq_map_range]
  · intro part hmem
    obtain ⟨index, hindex, heq, _⟩ := hparts part hmem
    rw [List.mem_range] at hindex
    omega
  · intro part hmem
    obtain ⟨index, _, heq, hurl⟩ := hparts part hmem
    rw [heq]
    exact hsign index part.2 hurl

theorem grantFor_multipart {target : SigningTarget} {credential : Credential} {key uploadId : Text} {lifetime : Nat}
    {firstPart partCount : UInt32} {grant : MultipartGrant} {complete abort verify : List Percent.Pair}
    (hparts : PartsFor prims hmac target credential key lifetime uploadId firstPart partCount grant.parts)
    (hcomplete : UrlFor prims hmac target credential key lifetime complete grant.completeUrl)
    (habort : UrlFor prims hmac target credential key lifetime abort grant.abortUrl)
    (hverify : UrlFor prims hmac target credential key lifetime verify grant.verifyUrl) :
    GrantFor prims hmac target credential key lifetime grant.urls := by
  intro url hmem
  rw [MultipartGrant.urls, List.mem_append] at hmem
  rcases hmem with hpart | hother
  · obtain ⟨part, hmem, rfl⟩ := List.mem_map.mp hpart
    exact ⟨_, hparts.urls part hmem⟩
  · simp only [List.mem_cons, List.not_mem_nil, or_false] at hother
    rcases hother with rfl | rfl | rfl
    · exact ⟨_, hcomplete⟩
    · exact ⟨_, habort⟩
    · exact ⟨_, hverify⟩

namespace R2Signing

theorem presign_spec {method key : Text} {config : Config} {credential : Credential} {expiresSeconds : Nat}
    {query requiredHeaders : List Percent.Pair} {reading : Option Text} {url : Text}
    (h : presign prims hmac method config credential key expiresSeconds query requiredHeaders reading = some url) :
    UrlFor prims hmac (signingTarget config) credential key expiresSeconds query url ∧ 0 < expiresSeconds ∧
      expiresSeconds ≤ 900 := by
  obtain ⟨timestamp, _, h⟩ := Option.bind_eq_some_iff.mp h
  obtain ⟨_, h⟩ := Option.ite_none_left_eq_some.mp h
  obtain ⟨hsigned, hbounds⟩ := presignTargetAt_spec prims hmac h
  exact ⟨⟨_, rfl, rfl, rfl, hsigned⟩, hbounds⟩

theorem accessGrant_spec {source : GrantSource Config} {method configJson storageKey : Text} {plaintext : List UInt8}
    {maximumExpiresAt : Nat} {grant : AccessGrant}
    (h : accessGrantFromPlaintext prims hmac source method configJson storageKey plaintext maximumExpiresAt = some grant) :
    ∃ config credential key lifetime, source.parseConfig configJson = some config ∧
      source.parseCredential plaintext = some credential ∧ objectKey config storageKey = some key ∧
      Timely source.nowMs maximumExpiresAt lifetime ∧
      GrantFor prims hmac (signingTarget config) credential key lifetime grant.urls := by
  obtain ⟨config, hconfig, h⟩ := Option.bind_eq_some_iff.mp h
  obtain ⟨credential, hcredential, h⟩ := Option.bind_eq_some_iff.mp h
  obtain ⟨key, hkey, h⟩ := Option.bind_eq_some_iff.mp h
  dsimp only at h
  refine ⟨config, credential, key, grantLifetime source.nowMs maximumExpiresAt, hconfig, hcredential, hkey, ?_⟩
  split_ifs at h with hput
  · obtain ⟨url, hurl, h⟩ := Option.bind_eq_some_iff.mp h
    obtain ⟨verifyUrl, hverify, h⟩ := Option.bind_eq_some_iff.mp h
    obtain ⟨createUrl, hcreate, h⟩ := Option.bind_eq_some_iff.mp h
    cases h
    refine ⟨timely_of_bounds (presign_spec hurl).2, ?_⟩
    simp only [GrantFor, AccessGrant.urls, Option.toList_some, List.singleton_append, List.forall_mem_cons,
      List.not_mem_nil, false_implies, implies_true, and_true]
    exact ⟨⟨_, (presign_spec hurl).1⟩, ⟨_, (presign_spec hverify).1⟩, ⟨_, (presign_spec hcreate).1⟩⟩
  · obtain ⟨url, hurl, h⟩ := Option.bind_eq_some_iff.mp h
    cases h
    refine ⟨timely_of_bounds (presign_spec hurl).2, ?_⟩
    simp only [GrantFor, AccessGrant.urls, Option.toList_none, List.append_nil, List.forall_mem_cons, List.not_mem_nil,
      false_implies, implies_true, and_true]
    exact ⟨_, (presign_spec hurl).1⟩

theorem multipartGrant_spec {source : GrantSource Config} {configJson storageKey uploadId : Text}
    {plaintext : List UInt8} {firstPart partCount : UInt32} {maximumExpiresAt : Nat} {grant : MultipartGrant}
    (h : multipartGrantFromPlaintext prims hmac source configJson storageKey plaintext uploadId firstPart partCount
      maximumExpiresAt = some grant) :
    ∃ config credential key lifetime, source.parseConfig configJson = some config ∧
      source.parseCredential plaintext = some credential ∧ objectKey config storageKey = some key ∧
      Timely source.nowMs maximumExpiresAt lifetime ∧
      GrantFor prims hmac (signingTarget config) credential key lifetime grant.urls ∧
      PartsFor prims hmac (signingTarget config) credential key lifetime uploadId firstPart partCount grant.parts := by
  obtain ⟨hvalid, h⟩ := Option.ite_none_left_eq_some.mp h
  rw [Bool.not_eq_true, Bool.not_eq_false'] at hvalid
  obtain ⟨config, hconfig, h⟩ := Option.bind_eq_some_iff.mp h
  obtain ⟨credential, hcredential, h⟩ := Option.bind_eq_some_iff.mp h
  obtain ⟨key, hkey, h⟩ := Option.bind_eq_some_iff.mp h
  dsimp only at h
  obtain ⟨parts, hparts, h⟩ := Option.bind_eq_some_iff.mp h
  obtain ⟨completeUrl, hcomplete, h⟩ := Option.bind_eq_some_iff.mp h
  obtain ⟨abortUrl, habort, h⟩ := Option.bind_eq_some_iff.mp h
  obtain ⟨verifyUrl, hverify, h⟩ := Option.bind_eq_some_iff.mp h
  cases h
  have hpartsFor := partsFor_of_mapM hvalid (fun index url hurl => (presign_spec hurl).1) hparts
  refine ⟨config, credential, key, _, hconfig, hcredential, hkey, timely_of_bounds (presign_spec hverify).2, ?_,
    hpartsFor⟩
  exact grantFor_multipart hpartsFor (presign_spec hcomplete).1 (presign_spec habort).1 (presign_spec hverify).1

end R2Signing

namespace AwsS3Signing

theorem sign_spec {method key : Text} {config : Config} {credential : Credential} {expiresSeconds : Nat}
    {query extraHeaders : List Percent.Pair} {reading : Option Text} {url : Text}
    (h : sign prims hmac method config credential key expiresSeconds query extraHeaders reading = some url) :
    UrlFor prims hmac (signingTarget config) credential key expiresSeconds query url ∧ 0 < expiresSeconds ∧
      expiresSeconds ≤ 900 := by
  obtain ⟨_, h⟩ := Option.ite_none_left_eq_some.mp h
  obtain ⟨_, h⟩ := Option.ite_none_left_eq_some.mp h
  obtain ⟨timestamp, _, h⟩ := Option.bind_eq_some_iff.mp h
  obtain ⟨hsigned, hbounds⟩ := presignTargetAt_spec prims hmac h
  exact ⟨⟨_, rfl, rfl, rfl, hsigned⟩, hbounds⟩

theorem accessGrant_spec {source : GrantSource Config} {method configJson storageKey : Text} {plaintext : List UInt8}
    {maximumExpiresAt : Nat} {grant : AwsAccessGrant}
    (h : accessGrantFromPlaintext prims hmac source method configJson storageKey plaintext maximumExpiresAt = some grant) :
    ∃ config credential key lifetime, source.parseConfig configJson = some config ∧
      source.parseCredential plaintext = some credential ∧ objectKey config storageKey = some key ∧
      Timely source.nowMs maximumExpiresAt lifetime ∧
      GrantFor prims hmac (signingTarget config) credential key lifetime grant.urls := by
  obtain ⟨config, hconfig, h⟩ := Option.bind_eq_some_iff.mp h
  obtain ⟨credential, hcredential, h⟩ := Option.bind_eq_some_iff.mp h
  obtain ⟨key, hkey, h⟩ := Option.bind_eq_some_iff.mp h
  obtain ⟨url, hurl, h⟩ := Option.bind_eq_some_iff.mp h
  cases h
  refine ⟨config, credential, key, _, hconfig, hcredential, hkey, timely_of_bounds (sign_spec hurl).2, ?_⟩
  intro found hmem
  rw [AccessGrant.urls, List.mem_cons, List.mem_append, Option.mem_toList, Option.mem_toList] at hmem
  rcases hmem with rfl | hverify | hcreate
  · exact ⟨_, (sign_spec hurl).1⟩
  · obtain ⟨_, hverify⟩ := Option.ite_none_right_eq_some.mp hverify
    exact ⟨_, (sign_spec hverify).1⟩
  · obtain ⟨_, hcreate⟩ := Option.ite_none_right_eq_some.mp hcreate
    exact ⟨_, (sign_spec hcreate).1⟩

theorem multipartGrant_spec {source : GrantSource Config} {configJson storageKey uploadId : Text}
    {plaintext : List UInt8} {firstPart partCount : UInt32} {maximumExpiresAt : Nat} {grant : AwsMultipartGrant}
    (h : multipartGrantFromPlaintext prims hmac source configJson storageKey plaintext uploadId firstPart partCount
      maximumExpiresAt = some grant) :
    ∃ config credential key lifetime, source.parseConfig configJson = some config ∧
      source.parseCredential plaintext = some credential ∧ objectKey config storageKey = some key ∧
      Timely source.nowMs maximumExpiresAt lifetime ∧
      GrantFor prims hmac (signingTarget config) credential key lifetime grant.urls ∧
      PartsFor prims hmac (signingTarget config) credential key lifetime uploadId firstPart partCount grant.parts := by
  obtain ⟨hvalid, h⟩ := Option.ite_none_left_eq_some.mp h
  rw [Bool.not_eq_true, Bool.not_eq_false'] at hvalid
  obtain ⟨config, hconfig, h⟩ := Option.bind_eq_some_iff.mp h
  obtain ⟨credential, hcredential, h⟩ := Option.bind_eq_some_iff.mp h
  obtain ⟨key, hkey, h⟩ := Option.bind_eq_some_iff.mp h
  dsimp only at h
  obtain ⟨parts, hparts, h⟩ := Option.bind_eq_some_iff.mp h
  obtain ⟨completeUrl, hcomplete, h⟩ := Option.bind_eq_some_iff.mp h
  obtain ⟨abortUrl, habort, h⟩ := Option.bind_eq_some_iff.mp h
  obtain ⟨verifyUrl, hverify, h⟩ := Option.bind_eq_some_iff.mp h
  cases h
  have hpartsFor := partsFor_of_mapM hvalid (fun index url hurl => (sign_spec hurl).1) hparts
  refine ⟨config, credential, key, _, hconfig, hcredential, hkey, timely_of_bounds (sign_spec hverify).2, ?_,
    hpartsFor⟩
  exact grantFor_multipart hpartsFor (sign_spec hcomplete).1 (sign_spec habort).1 (sign_spec hverify).1

end AwsS3Signing

open R2Signing (canonicalRequestAt SameRequest reserved canonicalRequestAt_injective)

/-- A signature is for one request, a presigned URL decodes to the request it is for, and a grant has URLs for its own
object only, none of which outlives it. -/
theorem presignedGrants_exact (prims : Primitives) (hmac : List UInt8 → List UInt8 → List UInt8) :
    (∀ (target : SigningTarget) (credential : Credential) (left right : SigningRequest) (text : Text),
      (∀ pair ∈ left.extraQuery, pair.1 ∉ reserved) → (∀ pair ∈ right.extraQuery, pair.1 ∉ reserved) →
      canonicalRequestAt target credential left = some text → canonicalRequestAt target credential right = some text →
        SameRequest left right) ∧
    (∀ (target : SigningTarget) (credential : Credential) (request : SigningRequest) (url : Text),
      presignTargetAt prims hmac target credential request = some url → SignedFor prims hmac target credential request url) ∧
    (∀ (source : GrantSource R2Signing.Config) (method configJson storageKey : Text) (plaintext : List UInt8)
        (maximumExpiresAt : Nat) (grant : AccessGrant),
      R2Signing.accessGrantFromPlaintext prims hmac source method configJson storageKey plaintext maximumExpiresAt =
          some grant →
        ∃ config credential key lifetime, source.parseConfig configJson = some config ∧
          source.parseCredential plaintext = some credential ∧ R2Signing.objectKey config storageKey = some key ∧
          Timely source.nowMs maximumExpiresAt lifetime ∧
          GrantFor prims hmac (R2Signing.signingTarget config) credential key lifetime grant.urls) ∧
    (∀ (source : GrantSource R2Signing.Config) (configJson storageKey uploadId : Text) (plaintext : List UInt8)
        (firstPart partCount : UInt32) (maximumExpiresAt : Nat) (grant : MultipartGrant),
      R2Signing.multipartGrantFromPlaintext prims hmac source configJson storageKey plaintext uploadId firstPart partCount
          maximumExpiresAt = some grant →
        ∃ config credential key lifetime, source.parseConfig configJson = some config ∧
          source.parseCredential plaintext = some credential ∧ R2Signing.objectKey config storageKey = some key ∧
          Timely source.nowMs maximumExpiresAt lifetime ∧
          GrantFor prims hmac (R2Signing.signingTarget config) credential key lifetime grant.urls ∧
          PartsFor prims hmac (R2Signing.signingTarget config) credential key lifetime uploadId firstPart partCount
            grant.parts) ∧
    (∀ (source : GrantSource AwsS3Signing.Config) (method configJson storageKey : Text) (plaintext : List UInt8)
        (maximumExpiresAt : Nat) (grant : AwsS3Signing.AwsAccessGrant),
      AwsS3Signing.accessGrantFromPlaintext prims hmac source method configJson storageKey plaintext maximumExpiresAt =
          some grant →
        ∃ config credential key lifetime, source.parseConfig configJson = some config ∧
          source.parseCredential plaintext = some credential ∧ AwsS3Signing.objectKey config storageKey = some key ∧
          Timely source.nowMs maximumExpiresAt lifetime ∧
          GrantFor prims hmac (AwsS3Signing.signingTarget config) credential key lifetime grant.urls) ∧
    ∀ (source : GrantSource AwsS3Signing.Config) (configJson storageKey uploadId : Text) (plaintext : List UInt8)
        (firstPart partCount : UInt32) (maximumExpiresAt : Nat) (grant : AwsS3Signing.AwsMultipartGrant),
      AwsS3Signing.multipartGrantFromPlaintext prims hmac source configJson storageKey plaintext uploadId firstPart
          partCount maximumExpiresAt = some grant →
        ∃ config credential key lifetime, source.parseConfig configJson = some config ∧
          source.parseCredential plaintext = some credential ∧ AwsS3Signing.objectKey config storageKey = some key ∧
          Timely source.nowMs maximumExpiresAt lifetime ∧
          GrantFor prims hmac (AwsS3Signing.signingTarget config) credential key lifetime grant.urls ∧
          PartsFor prims hmac (AwsS3Signing.signingTarget config) credential key lifetime uploadId firstPart partCount
            grant.parts :=
  ⟨fun _ _ _ _ _ hleft hright h h' => canonicalRequestAt_injective hleft hright h h',
    fun _ _ _ _ h => (presignTargetAt_spec prims hmac h).1,
    fun _ _ _ _ _ _ _ h => R2Signing.accessGrant_spec h,
    fun _ _ _ _ _ _ _ _ _ h => R2Signing.multipartGrant_spec h,
    fun _ _ _ _ _ _ _ h => AwsS3Signing.accessGrant_spec h,
    fun _ _ _ _ _ _ _ _ _ h => AwsS3Signing.multipartGrant_spec h⟩

/-- A driver with the configuration and the credential of an account. -/
def accountSource : GrantSource R2Signing.Config where
  parseConfig _ := some ⟨utf8 "https://account.r2.cloudflarestorage.com", utf8 "payload-dev", utf8 "skydriver/"⟩
  parseCredential _ := some ⟨utf8 "test-access", utf8 "test-secret"⟩
  nowMs := 1784116800000
  amzTimestamp _ := some (utf8 "20260715T120000Z")

/-- A bucket with the credential of its owner. -/
def bucketSource : GrantSource AwsS3Signing.Config where
  parseConfig _ := some ⟨utf8 "us-east-1", utf8 "payload-dev", utf8 "123456789012", utf8 "skydriver/"⟩
  parseCredential _ := some ⟨utf8 "TESTACCESSKEY0001", utf8 "test-secret-key-1"⟩
  nowMs := 1784116800000
  amzTimestamp _ := some (utf8 "20260715T120000Z")

/-- A hash that no statement about grants depends on. -/
def flatHash : Primitives := { sha256 := fun _ => Bytes.zero 32, isNfc := fun _ => true }

/-- A code that no statement about grants depends on. -/
def flatMac (key _ : List UInt8) : List UInt8 := key

/-- Grants for one object and for two parts of it, of both providers. -/
theorem presignedGrants_exact_built :
    (∃ grant config credential key lifetime,
      R2Signing.accessGrantFromPlaintext flatHash flatMac accountSource put [] (utf8 "objects/value") [] 1784116860 =
          some grant ∧ Timely accountSource.nowMs 1784116860 lifetime ∧
        GrantFor flatHash flatMac (R2Signing.signingTarget config) credential key lifetime grant.urls) ∧
    (∃ grant config credential key lifetime,
      R2Signing.multipartGrantFromPlaintext flatHash flatMac accountSource [] (utf8 "objects/value") [] (utf8 "u/1 a+b=")
          7 2 1784116860 = some grant ∧ Timely accountSource.nowMs 1784116860 lifetime ∧
        GrantFor flatHash flatMac (R2Signing.signingTarget config) credential key lifetime grant.urls ∧
        PartsFor flatHash flatMac (R2Signing.signingTarget config) credential key lifetime (utf8 "u/1 a+b=") 7 2
          grant.parts) ∧
    (∃ grant config credential key lifetime,
      AwsS3Signing.accessGrantFromPlaintext flatHash flatMac bucketSource put [] (utf8 "objects/value") [] 1784116860 =
          some grant ∧ Timely bucketSource.nowMs 1784116860 lifetime ∧
        GrantFor flatHash flatMac (AwsS3Signing.signingTarget config) credential key lifetime grant.urls) ∧
    ∃ grant config credential key lifetime,
      AwsS3Signing.multipartGrantFromPlaintext flatHash flatMac bucketSource [] (utf8 "objects/value") []
          (utf8 "u/1 a+b=") 7 2 1784116860 = some grant ∧ Timely bucketSource.nowMs 1784116860 lifetime ∧
        GrantFor flatHash flatMac (AwsS3Signing.signingTarget config) credential key lifetime grant.urls ∧
        PartsFor flatHash flatMac (AwsS3Signing.signingTarget config) credential key lifetime (utf8 "u/1 a+b=") 7 2
          grant.parts := by
  obtain ⟨_, _, haccess, hmultipart, hawsAccess, hawsMultipart⟩ := presignedGrants_exact flatHash flatMac
  refine ⟨?_, ?_, ?_, ?_⟩
  · have hsome : (R2Signing.accessGrantFromPlaintext flatHash flatMac accountSource put [] (utf8 "objects/value") []
        1784116860).isSome = true := by decide +kernel
    obtain ⟨grant, hgrant⟩ := Option.isSome_iff_exists.mp hsome
    obtain ⟨config, credential, key, lifetime, _, _, _, htimely, hurls⟩ := haccess _ _ _ _ _ _ _ hgrant
    exact ⟨grant, config, credential, key, lifetime, hgrant, htimely, hurls⟩
  · have hsome : (R2Signing.multipartGrantFromPlaintext flatHash flatMac accountSource [] (utf8 "objects/value") []
        (utf8 "u/1 a+b=") 7 2 1784116860).isSome = true := by decide +kernel
    obtain ⟨grant, hgrant⟩ := Option.isSome_iff_exists.mp hsome
    obtain ⟨config, credential, key, lifetime, _, _, _, htimely, hurls, hparts⟩ := hmultipart _ _ _ _ _ _ _ _ _ hgrant
    exact ⟨grant, config, credential, key, lifetime, hgrant, htimely, hurls, hparts⟩
  · have hsome : (AwsS3Signing.accessGrantFromPlaintext flatHash flatMac bucketSource put [] (utf8 "objects/value") []
        1784116860).isSome = true := by decide +kernel
    obtain ⟨grant, hgrant⟩ := Option.isSome_iff_exists.mp hsome
    obtain ⟨config, credential, key, lifetime, _, _, _, htimely, hurls⟩ := hawsAccess _ _ _ _ _ _ _ hgrant
    exact ⟨grant, config, credential, key, lifetime, hgrant, htimely, hurls⟩
  · have hsome : (AwsS3Signing.multipartGrantFromPlaintext flatHash flatMac bucketSource [] (utf8 "objects/value") []
        (utf8 "u/1 a+b=") 7 2 1784116860).isSome = true := by decide +kernel
    obtain ⟨grant, hgrant⟩ := Option.isSome_iff_exists.mp hsome
    obtain ⟨config, credential, key, lifetime, _, _, _, htimely, hurls, hparts⟩ :=
      hawsMultipart _ _ _ _ _ _ _ _ _ hgrant
    exact ⟨grant, config, credential, key, lifetime, hgrant, htimely, hurls, hparts⟩

end Skydriver
