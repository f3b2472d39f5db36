import Skydriver.Journal.Prepare

/-!
# Plans survive persistence where they are text

Go writes a string as JSON only as far as it is UTF-8, and leaves out a slice of algorithms that is empty.  A plan made of
UTF-8 strings, whose driver lists no empty slice of algorithms, is read back as it was stored; any other plan comes back
changed, although nothing that prepares a plan refuses it.
-/

namespace Skydriver.Journal

open Checked Driver Json

/-! ### What comes back -/

theorem supportMode_stored {name : String} {mode : SupportMode} (h : mode.validate name = .ok ()) :
    supportMode.stored mode = mode := by
  cases mode with
  | native => decide
  | emulated => decide
  | unavailable => decide
  | other text => cases h

theorem partOrdering_stored {ordering : PartOrdering} (h : ordering.validate = .ok ()) :
    partOrdering.stored ordering = ordering := by
  cases ordering with
  | none => decide
  | sequential => decide
  | arbitrary => decide
  | other text => cases h

/-- A member that is left out where it is the zero of its type comes back in any case. -/
theorem ite_zero {α : Type} [DecidableEq α] [OfNat α 0] (value : α) : (if value = 0 then 0 else value) = value := by
  split_ifs with hzero
  · exact hzero.symm
  · rfl

theorem ite_coerce (text : Text) : (if text = [] then [] else Utf8.coerce text) = Utf8.coerce text := by
  split_ifs with hempty
  · rw [hempty]
    rfl
  · rfl

/-- The algorithms that come back: none where the slice was empty. -/
def storedAlgorithms (algorithms : Option (List Text)) : Option (List Text) :=
  if (algorithms.getD []).isEmpty then none else algorithms.map fun algorithms => algorithms.map Utf8.coerce

theorem readCapabilities_stored {value : ReadCapabilities} (hcomplete : supportMode.stored value.complete = value.complete)
    (hrange : supportMode.stored value.range = value.range) : readCapabilities.stored value = value := by
  simp [readCapabilities, hcomplete, hrange, ite_zero]

theorem writeCapabilities_stored {value : WriteCapabilities}
    (hcomplete : supportMode.stored value.complete = value.complete)
    (hresume : supportMode.stored value.resume = value.resume)
    (hparallel : supportMode.stored value.parallelParts = value.parallelParts)
    (hordering : partOrdering.stored value.partOrdering = value.partOrdering) :
    writeCapabilities.stored value = value := by
  simp [writeCapabilities, hcomplete, hresume, hparallel, hordering, ite_zero]

theorem integrityCapabilities_stored {value : IntegrityCapabilities}
    (hstrong : supportMode.stored value.strongUploadChecksum = value.strongUploadChecksum) :
    integrityCapabilities.stored value = { value with algorithms := storedAlgorithms value.algorithms } := by
  simp [integrityCapabilities, hstrong, storedAlgorithms]

theorem capabilities_stored {value : Capabilities} (h : value.validate = .ok ()) :
    Journal.capabilities.stored value =
      { value with integrity := { value.integrity with algorithms := storedAlgorithms value.integrity.algorithms } } := by
  obtain ⟨_, hmodes, hrest⟩ := bind_eq_ok.mp h
  obtain ⟨_, _, hrest⟩ := bind_eq_ok.mp hrest
  obtain ⟨_, hwrites, _⟩ := bind_eq_ok.mp hrest
  obtain ⟨_, hordering, _⟩ := bind_eq_ok.mp hwrites
  simp only [Capabilities.validateModes, bind_eq_ok] at hmodes
  obtain ⟨_, hreadComplete, _, hrange, _, hwriteComplete, _, hresume, _, hparallel, _, hdelete, _, hinventory, _, hcopy,
    hstrong⟩ := hmodes
  have hread := readCapabilities_stored (supportMode_stored hreadComplete) (supportMode_stored hrange)
  have hwrite := writeCapabilities_stored (supportMode_stored hwriteComplete) (supportMode_stored hresume)
    (supportMode_stored hparallel) (partOrdering_stored hordering)
  have hintegrity := integrityCapabilities_stored (supportMode_stored hstrong)
  simp [Journal.capabilities, hread, hwrite, hintegrity, supportMode_stored hdelete, supportMode_stored hinventory,
    supportMode_stored hcopy, ite_zero]

theorem coerce_eq_self_of_isHexOf {width : Nat} {text : Text} (h : isHexOf width text = true) :
    Utf8.coerce text = text := by
  unfold isHexOf at h
  split at h
  · next bytes hbytes =>
      rw [← hexEncode_of_hexDecode hbytes]
      exact Utf8.coerce_ascii (hexEncode_ascii bytes)
  · cases h

/-- A driver whose strings are text and which has no empty slice of algorithms. -/
def DescriptorIsText (descriptor : Descriptor) : Prop :=
  Utf8.valid descriptor.id = true ∧ Utf8.valid descriptor.kind = true ∧ Utf8.valid descriptor.summary = true ∧
    descriptor.capabilities.integrity.algorithms ≠ some [] ∧
      ∀ algorithm ∈ descriptor.capabilities.integrity.algorithms.getD [], Utf8.valid algorithm = true

theorem storedAlgorithms_eq_iff (algorithms : Option (List Text)) :
    storedAlgorithms algorithms = algorithms ↔
      algorithms ≠ some [] ∧ ∀ algorithm ∈ algorithms.getD [], Utf8.valid algorithm = true := by
  match algorithms with
  | none => simp [storedAlgorithms]
  | some [] => simp [storedAlgorithms]
  | some (algorithm :: rest) =>
      have hmap : (rest.map Utf8.coerce = rest) ↔ ∀ other ∈ rest, Utf8.valid other = true := by
        conv_lhs => rhs; rw [← List.map_id rest]
        rw [List.map_inj_left]
        simp only [id_eq, Utf8.coerce_eq_self_iff]
      simp [storedAlgorithms, Utf8.coerce_eq_self_iff, hmap]

theorem descriptor_stored {value : Descriptor} (h : value.validate = .ok ()) :
    Journal.descriptor.stored value = value ↔ DescriptorIsText value := by
  simp only [Descriptor.validate, ensure_bind_eq_ok, mapError_eq_ok] at h
  have hcapabilities := capabilities_stored h.2.2.2
  rw [DescriptorIsText, ← storedAlgorithms_eq_iff, ← Utf8.coerce_eq_self_iff, ← Utf8.coerce_eq_self_iff,
    ← Utf8.coerce_eq_self_iff]
  obtain ⟨id, kind, summary, capabilities⟩ := value
  obtain ⟨read, write, delete, inventory, serverSideCopy, integrity, maximum, preferred, concurrency⟩ := capabilities
  obtain ⟨strong, algorithms, readback⟩ := integrity
  simp [Journal.descriptor, hcapabilities]

def ObjectIsText (object : Object) : Prop :=
  Utf8.valid object.locator.storageKey = true ∧ Utf8.valid object.locator.nativeID = true ∧
    Utf8.valid object.locator.version = true ∧ Utf8.valid object.locator.etag = true

theorem object_stored (value : Object) : Journal.object.stored value = value ↔ ObjectIsText value := by
  simp only [ObjectIsText, ← Utf8.coerce_eq_self_iff]
  obtain ⟨⟨storageKey, nativeID, version, etag⟩, sizeBytes⟩ := value
  simp [Journal.object, Journal.locator, ite_coerce]

theorem sourceIdentity_stored {value : SourceIdentity} (h : value.validate = .ok ()) :
    sourceIdentity.stored value = value ↔
      Utf8.valid value.kind = true ∧ Utf8.valid value.reference = true ∧ Utf8.valid value.version = true := by
  simp only [SourceIdentity.validate, validateSHA256, ensure_bind_eq_ok, ensure_eq_ok] at h
  have hchecksum := coerce_eq_self_of_isHexOf h.2
  simp only [← Utf8.coerce_eq_self_iff]
  obtain ⟨kind, reference, version, sizeBytes, checksum⟩ := value
  simp [sourceIdentity, hchecksum]

theorem plannedPart_stored {value : PlannedPart} (h : isHexOf 32 value.checksum = true) :
    plannedPart.stored value = value := by
  simp [plannedPart, coerce_eq_self_of_isHexOf h]

theorem plannedBlock_stored (value : PlannedBlock) : plannedBlock.stored value = value := by
  simp [plannedBlock]

theorem checksums_of_validatePartsFrom {sizeBytes partBytes : UInt64} {index : Nat} {nextOffset covered : UInt64}
    {parts : List PlannedPart} (h : validatePartsFrom sizeBytes partBytes index nextOffset parts = .ok covered) :
    ∀ part ∈ parts, isHexOf 32 part.checksum = true := by
  induction parts generalizing index nextOffset with
  | nil => simp
  | cons part rest ih =>
      simp only [validatePartsFrom, validateSHA256, ensure_bind_eq_ok] at h
      exact List.forall_mem_cons.mpr ⟨h.2.1, ih h.2.2⟩

theorem checksums_of_validateParts {sizeBytes partBytes : UInt64} {parts : List PlannedPart}
    (h : validateParts sizeBytes partBytes parts = .ok ()) : ∀ part ∈ parts, isHexOf 32 part.checksum = true := by
  unfold validateParts at h
  split_ifs at h
  · obtain ⟨_, hempty⟩ : partBytes = 0 ∧ parts = [] := by simpa using h
    simp [hempty]
  · obtain ⟨_, h⟩ := ensure_bind_eq_ok.mp h
    obtain ⟨_, h⟩ := ensure_bind_eq_ok.mp h
    obtain ⟨_, hparts, _⟩ := bind_eq_ok.mp h
    exact checksums_of_validatePartsFrom hparts

/-- What the executors compare or use of an upload plan: everything but the warnings. -/
def UploadPlan.Agrees (left right : UploadPlan) : Prop :=
  left.driver = right.driver ∧ left.source = right.source ∧ left.storageKey = right.storageKey ∧
    left.sizeBytes = right.sizeBytes ∧ left.checksum = right.checksum ∧ left.partBytes = right.partBytes ∧
    left.parts = right.parts

/-- What the executors compare or use of a download plan. -/
def DownloadPlan.Agrees (left right : DownloadPlan) : Prop :=
  left.driver = right.driver ∧ left.object = right.object ∧ left.checksum = right.checksum ∧
    left.destination = right.destination ∧ left.stagingPath = right.stagingPath ∧ left.blockBytes = right.blockBytes ∧
    left.blocks = right.blocks

theorem UploadPlan.Agrees.validate_eq {left right : UploadPlan} (h : left.Agrees right) :
    left.validate = right.validate := by
  obtain ⟨hdriver, hsource, hkey, hsize, hchecksum, hbytes, hparts⟩ := h
  simp only [UploadPlan.validate, hdriver, hsource, hkey, hsize, hchecksum, hbytes, hparts]

theorem DownloadPlan.Agrees.validate_eq {left right : DownloadPlan} (h : left.Agrees right) :
    left.validate = right.validate := by
  obtain ⟨hdriver, hobject, hchecksum, hdestination, hstaging, hbytes, hblocks⟩ := h
  simp only [DownloadPlan.validate, hdriver, hobject, hchecksum, hdestination, hstaging, hbytes, hblocks]

def UploadIsText (plan : UploadPlan) : Prop :=
  DescriptorIsText plan.driver ∧
    (Utf8.valid plan.source.kind = true ∧ Utf8.valid plan.source.reference = true ∧
      Utf8.valid plan.source.version = true) ∧ Utf8.valid plan.storageKey = true

def DownloadIsText (plan : DownloadPlan) : Prop :=
  DescriptorIsText plan.driver ∧ ObjectIsText plan.object ∧ Utf8.valid plan.destination = true ∧
    Utf8.valid plan.stagingPath = true

theorem uploadPlan_stored {value : UploadPlan} (h : value.validate = .ok ()) :
    (uploadPlan.stored value).Agrees value ↔ UploadIsText value := by
  obtain ⟨_, hdriver, h⟩ := bind_eq_ok.mp h
  obtain ⟨_, h⟩ := ensure_bind_eq_ok.mp h
  obtain ⟨_, hsource, h⟩ := bind_eq_ok.mp h
  obtain ⟨hchecksum, h⟩ := ensure_bind_eq_ok.mp h
  obtain ⟨_, h⟩ := ensure_bind_eq_ok.mp h
  obtain ⟨_, hparts⟩ := ensure_bind_eq_ok.mp h
  rw [mapError_eq_ok] at hdriver
  have hstored : value.parts.map plannedPart.stored = value.parts := by
    conv_rhs => rw [← List.map_id value.parts]
    exact List.map_congr_left fun part hpart => plannedPart_stored (checksums_of_validateParts hparts part hpart)
  rw [UploadIsText, ← descriptor_stored hdriver, ← sourceIdentity_stored hsource, ← Utf8.coerce_eq_self_iff]
  simp [UploadPlan.Agrees, uploadPlan, hstored, coerce_eq_self_of_isHexOf hchecksum]

theorem downloadPlan_stored {value : DownloadPlan} (h : value.validate = .ok ()) :
    (downloadPlan.stored value).Agrees value ↔ DownloadIsText value := by
  obtain ⟨_, hdriver, h⟩ := bind_eq_ok.mp h
  obtain ⟨_, h⟩ := ensure_bind_eq_ok.mp h
  obtain ⟨hchecksum, _⟩ := ensure_bind_eq_ok.mp h
  rw [mapError_eq_ok] at hdriver
  have hstored : value.blocks.map plannedBlock.stored = value.blocks := by
    conv_rhs => rw [← List.map_id value.blocks]
    exact List.map_congr_left fun block _ => plannedBlock_stored block
  rw [DownloadIsText, ← descriptor_stored hdriver, ← object_stored, ← Utf8.coerce_eq_self_iff,
    ← Utf8.coerce_eq_self_iff]
  simp [DownloadPlan.Agrees, downloadPlan, hstored, coerce_eq_self_of_isHexOf hchecksum]

/-! ### Destinations and their staging files -/

theorem separator_ascii : separator < 0x80 := by decide

theorem valid_intercalate_iff (components : List Text) :
    Utf8.valid ([separator].intercalate components) = true ↔ ∀ component ∈ components, Utf8.valid component = true := by
  induction components with
  | nil => simp [Utf8.valid, Utf8.validFrom]
  | cons component rest ih =>
      cases rest with
      | nil => simp
      | cons next rest =>
          rw [List.intercalate_cons_cons, List.append_assoc, List.singleton_append,
            Utf8.valid_append separator_ascii, Bool.and_eq_true, ih, List.forall_mem_cons (a := component)]

theorem valid_of_mem_splitOn {path : Text} (hpath : Utf8.valid path = true) :
    ∀ component ∈ path.splitOn separator, Utf8.valid component = true := by
  rw [← valid_intercalate_iff, List.intercalate_splitOn]
  exact hpath

theorem mem_cleanStep {rooted : Bool} {cleaned : List Text} {component other : Text}
    (h : other ∈ cleanStep rooted cleaned component) : other = component ∨ other ∈ cleaned := by
  cases cleaned with
  | nil =>
      simp only [cleanStep] at h
      split_ifs at h
      · exact .inr h
      · cases h
      · exact .inl (List.mem_singleton.mp h)
      · exact .inl (List.mem_singleton.mp h)
  | cons last rest =>
      simp only [cleanStep] at h
      split_ifs at h
      · exact .inr h
      · exact List.mem_cons.mp h
      · exact .inr (List.mem_cons_of_mem _ h)
      · exact List.mem_cons.mp h

theorem mem_foldl_cleanStep {rooted : Bool} {components cleaned : List Text} {other : Text}
    (h : other ∈ components.foldl (cleanStep rooted) cleaned) : other ∈ components ∨ other ∈ cleaned := by
  induction components generalizing cleaned with
  | nil => exact .inr h
  | cons component rest ih =>
      rcases ih h with hrest | hcleaned
      · exact .inl (List.mem_cons_of_mem _ hrest)
      · rcases mem_cleanStep hcleaned with rfl | hcleaned
        · exact .inl List.mem_cons_self
        · exact .inr hcleaned

theorem valid_clean {path : Text} (hpath : Utf8.valid path = true) : Utf8.valid (clean path) = true := by
  have hjoined : Utf8.valid ([separator].intercalate
      ((path.splitOn separator).foldl (cleanStep (isAbs path)) []).reverse) = true := by
    rw [valid_intercalate_iff]
    intro component hcomponent
    rcases mem_foldl_cleanStep (List.mem_reverse.mp hcomponent) with hmem | hnil
    · exact valid_of_mem_splitOn hpath component hmem
    · cases hnil
  simp only [clean]
  split_ifs
  · have happend := Utf8.valid_append separator_ascii [] ([separator].intercalate
      ((path.splitOn separator).foldl (cleanStep (isAbs path)) []).reverse)
    rw [hjoined] at happend
    exact happend
  · decide
  · exact hjoined

theorem valid_split {path : Text} (hpath : Utf8.valid path = true) :
    Utf8.valid ((path.reverse.dropWhile (· != separator)).reverse) = true ∧
      Utf8.valid ((path.reverse.takeWhile (· != separator)).reverse) = true := by
  have hsplit : (path.reverse.dropWhile (· != separator)).reverse ++ (path.reverse.takeWhile (· != separator)).reverse =
      path := by
    rw [← List.reverse_append, List.takeWhile_append_dropWhile, List.reverse_reverse]
  generalize (path.reverse.takeWhile (· != separator)).reverse = tail at hsplit ⊢
  cases hfront : path.reverse.dropWhile (· != separator) with
  | nil =>
      rw [hfront] at hsplit
      simp only [List.reverse_nil, List.nil_append] at hsplit ⊢
      exact ⟨rfl, hsplit ▸ hpath⟩
  | cons last rest =>
      have hlast : last = separator := by
        have hhead := List.head_dropWhile_not (· != separator) (show path.reverse.dropWhile (· != separator) ≠ [] by simp [hfront])
        simpa [hfront] using hhead
      rw [hfront, hlast, List.reverse_cons, List.append_assoc, List.singleton_append] at hsplit
      rw [← hsplit, Utf8.valid_append separator_ascii, Bool.and_eq_true] at hpath
      have hfirst := Utf8.valid_append separator_ascii rest.reverse []
      rw [hpath.1] at hfirst
      rw [hlast, List.reverse_cons]
      exact ⟨hfirst, hpath.2⟩

theorem valid_dir {path : Text} (hpath : Utf8.valid path = true) : Utf8.valid (dir path) = true :=
  valid_clean (valid_split hpath).1

theorem valid_trimmed {path : Text} (hpath : Utf8.valid path = true) :
    Utf8.valid (path.reverse.dropWhile (· == separator)).reverse = true := by
  have hsplit : (path.reverse.dropWhile (· == separator)).reverse ++ (path.reverse.takeWhile (· == separator)).reverse =
      path := by
    rw [← List.reverse_append, List.takeWhile_append_dropWhile, List.reverse_reverse]
  have hascii : ∀ byte ∈ (path.reverse.takeWhile (· == separator)).reverse, byte < 0x80 := by
    intro byte hbyte
    have hseparator := List.mem_takeWhile_imp (List.mem_reverse.mp hbyte)
    rw [eq_of_beq hseparator]
    exact separator_ascii
  rw [← hsplit, Utf8.valid_append_ascii _ hascii] at hpath
  exact hpath

theorem valid_base {path : Text} (hpath : Utf8.valid path = true) : Utf8.valid (base path) = true := by
  have htrimmed := (valid_split (valid_trimmed hpath)).2
  rw [List.reverse_reverse] at htrimmed
  simp only [base]
  split_ifs
  · decide
  · decide
  · exact htrimmed

theorem valid_join {front back : Text} (hfront : Utf8.valid front = true) (hback : Utf8.valid back = true) :
    Utf8.valid (join front back) = true := by
  have hboth : Utf8.valid (front ++ separator :: back) = true := by
    rw [Utf8.valid_append separator_ascii, hfront, hback]
    rfl
  unfold join
  split_ifs
  · rfl
  · exact valid_clean hback
  · exact valid_clean hfront
  · exact valid_clean hboth

theorem valid_stagingPath {destination : Text} (hdestination : Utf8.valid destination = true) (journalID : Identity) :
    Utf8.valid (stagingPath destination journalID) = true := by
  refine valid_join (valid_dir hdestination) ?_
  have hpartial : ∀ byte ∈ utf8 ".partial", byte < 0x80 := Utf8.ascii_of_all (by decide)
  have hsuffix : ∀ byte ∈ utf8 ".skydriver-", byte < 0x80 := Utf8.ascii_of_all (by decide)
  have hdot : utf8 "." = [0x2E] := by decide
  have hbase := Utf8.valid_append (show (0x2E : UInt8) < 0x80 by decide) [] (base destination)
  rw [valid_base hdestination] at hbase
  rw [Utf8.valid_append_ascii _ hpartial, Utf8.valid_append_ascii _ (hexEncode_ascii journalID.val),
    Utf8.valid_append_ascii _ hsuffix, hdot]
  exact hbase

/-! ### Reloading -/

theorem planRecord_stored {plan : PlanRecord} (h : plan.validate = .ok ()) :
    planRecord.stored plan =
      { plan with upload := plan.upload.map uploadPlan.stored, download := plan.download.map downloadPlan.stored } := by
  obtain ⟨hidentity, hunion⟩ := ensure_bind_eq_ok.mp h
  obtain ⟨schema, id, direction, createdAt, upload, download⟩ := plan
  simp only [Bool.not_eq_true', Bool.or_eq_false_iff, bne_eq_false_iff_eq, Bool.not_eq_false', validateIdentity_isOk] at hidentity
  obtain ⟨⟨rfl, hid⟩, _⟩ := hidentity
  have hschema : Utf8.coerce Journal.schema = Journal.schema :=
    Utf8.coerce_ascii (Utf8.ascii_of_all (by decide))
  have hdirection : Journal.direction.stored direction = direction := by
    cases direction with
    | upload => decide
    | download => decide
    | other text => cases hunion
  have hupload : (if upload.isNone = true then none else Option.map uploadPlan.stored upload) =
      Option.map uploadPlan.stored upload := by cases upload <;> rfl
  have hdownload : (if download.isNone = true then none else Option.map downloadPlan.stored download) =
      Option.map downloadPlan.stored download := by cases download <;> rfl
  simp only [planRecord, Record.map_stored, Record.both_stored, Record.field_stored, Record.fieldUnless_stored,
    Record.pointer_stored, Record.pointer_zero, Codec.string_stored, Codec.int64_stored, hschema,
    coerce_eq_self_of_isHexOf hid, hdirection, hupload, hdownload]

theorem readEnvelope_storePlan {prims : Primitives} {plan : PlanRecord} {content : List UInt8}
    (h : storePlan prims plan = .ok content) :
    plan.validate = .ok () ∧ ∃ digest, readEnvelope prims planRecord.codec content =
      .ok ({ plan with upload := plan.upload.map uploadPlan.stored, download := plan.download.map downloadPlan.stored },
        digest) := by
  obtain ⟨_, hvalid, h⟩ := bind_eq_ok.mp h
  obtain ⟨hsize, hcontent⟩ := ensure_bind_eq_ok.mp h
  cases hcontent
  refine ⟨hvalid, (encodeEnvelope prims planRecord.codec plan).2, ?_⟩
  rw [readEnvelope_encodeEnvelope prims planRecord.codec plan (by simpa using hsize), Record.codec_stored,
    planRecord_stored hvalid]

/-- An upload plan comes back with what the executors compare or use of it. -/
def UploadReloads (prims : Primitives) (content : List UInt8) (upload reloaded : UploadPlan) : Prop :=
  ∃ loaded digest, loadPlan prims content = .ok (loaded, digest) ∧ loaded.upload = some reloaded ∧ reloaded.Agrees upload

def DownloadReloads (prims : Primitives) (content : List UInt8) (download reloaded : DownloadPlan) : Prop :=
  ∃ loaded digest, loadPlan prims content = .ok (loaded, digest) ∧ loaded.download = some reloaded ∧
    reloaded.Agrees download

theorem loadPlan_eq_ok {prims : Primitives} {content : List UInt8} {loaded : PlanRecord} {digest : Text} :
    loadPlan prims content = .ok (loaded, digest) ↔
      readEnvelope prims planRecord.codec content = .ok (loaded, digest) ∧ loaded.validate = .ok () := by
  rw [loadPlan, bind_eq_ok]
  constructor
  · rintro ⟨⟨plan, found⟩, hread, h⟩
    obtain ⟨_, hvalid, hresult⟩ := bind_eq_ok.mp h
    cases hresult
    exact ⟨hread, mapError_eq_ok.mp hvalid⟩
  · rintro ⟨hread, hvalid⟩
    refine ⟨_, hread, ?_⟩
    dsimp only
    rw [mapError_eq_ok.mpr hvalid, ok_bind]

theorem uploadReloads_iff {prims : Primitives} {plan : PlanRecord} {content : List UInt8} {upload : UploadPlan}
    (hstore : storePlan prims plan = .ok content) (hdirection : plan.direction = .upload)
    (hupload : plan.upload = some upload) :
    (∃ reloaded, UploadReloads prims content upload reloaded) ↔ UploadIsText upload := by
  obtain ⟨hvalid, digest, hread⟩ := readEnvelope_storePlan hstore
  obtain ⟨hidentity, hunion⟩ := ensure_bind_eq_ok.mp hvalid
  rw [hdirection, hupload] at hunion
  cases hdownload : plan.download with
  | some download =>
      rw [hdownload] at hunion
      cases hunion
  | none =>
      rw [hdownload] at hunion
      rw [hupload, hdownload] at hread
      have hplan : upload.validate = .ok () := hunion
      rw [← uploadPlan_stored hplan]
      constructor
      · rintro ⟨reloaded, loaded, _, hload, hsome, hagrees⟩
        obtain ⟨hloaded, _⟩ := loadPlan_eq_ok.mp hload
        rw [hread] at hloaded
        cases hloaded
        cases hsome
        exact hagrees
      · intro hagrees
        refine ⟨uploadPlan.stored upload, _, digest, loadPlan_eq_ok.mpr ⟨hread, ?_⟩, rfl, hagrees⟩
        rw [PlanRecord.validate, hidentity, ensure_true, ok_bind, hdirection]
        exact hagrees.validate_eq.trans hplan

theorem downloadReloads_iff {prims : Primitives} {plan : PlanRecord} {content : List UInt8} {download : DownloadPlan}
    (hstore : storePlan prims plan = .ok content) (hdirection : plan.direction = .download)
    (hdownload : plan.download = some download) :
    (∃ reloaded, DownloadReloads prims content download reloaded) ↔ DownloadIsText download := by
  obtain ⟨hvalid, digest, hread⟩ := readEnvelope_storePlan hstore
  obtain ⟨hidentity, hunion⟩ := ensure_bind_eq_ok.mp hvalid
  rw [hdirection, hdownload] at hunion
  cases hupload : plan.upload with
  | some upload =>
      rw [hupload] at hunion
      cases hunion
  | none =>
      rw [hupload] at hunion
      rw [hdownload, hupload] at hread
      have hplan : download.validate = .ok () := hunion
      rw [← downloadPlan_stored hplan]
      constructor
      · rintro ⟨reloaded, loaded, _, hload, hsome, hagrees⟩
        obtain ⟨hloaded, _⟩ := loadPlan_eq_ok.mp hload
        rw [hread] at hloaded
        cases hloaded
        cases hsome
        exact hagrees
      · intro hagrees
        refine ⟨downloadPlan.stored download, _, digest, loadPlan_eq_ok.mpr ⟨hread, ?_⟩, rfl, hagrees⟩
        rw [PlanRecord.validate, hidentity, ensure_true, ok_bind, hdirection]
        exact hagrees.validate_eq.trans hplan

/-! ### Prepared plans -/

theorem inspectSource_spec {prims : Primitives} {source : ReplayableSource} {partBytes : UInt64}
    {identity : SourceIdentity} {parts : List PlannedPart}
    (h : inspectSource prims source partBytes = .ok (identity, parts)) :
    ∃ metadata, source.before = .ok metadata ∧ identity.kind = metadata.kind ∧
      identity.reference = metadata.reference ∧ identity.version = metadata.version := by
  obtain ⟨before, hbefore, h⟩ := bind_eq_ok.mp h
  obtain ⟨⟨_, checksum⟩, _, h⟩ := bind_eq_ok.mp h
  obtain ⟨_, _, h⟩ := bind_eq_ok.mp h
  obtain ⟨_, h⟩ := ensure_bind_eq_ok.mp h
  obtain ⟨_, _, h⟩ := bind_eq_ok.mp h
  cases h
  exact ⟨before, mapError_eq_ok.mp hbefore, rfl, rfl, rfl⟩

/-- What preparation puts into an upload plan, and that the same driver and source are admitted against it. -/
theorem prepareUpload_spec {prims : Primitives} {handle : Handle} {source : ReplayableSource} {storageKey : Text}
    {options : UploadOptions} {journalID : Identity} {now : Int64} {plan : PlanRecord}
    (h : prepareUpload prims handle source storageKey options journalID now = .ok plan) :
    plan.direction = .upload ∧ ∃ upload, plan.upload = some upload ∧ upload.driver = handle.descriptor ∧
      upload.storageKey = storageKey ∧
      (∃ metadata, source.before = .ok metadata ∧ upload.source.kind = metadata.kind ∧
        upload.source.reference = metadata.reference ∧ upload.source.version = metadata.version) ∧
      ∀ reloaded : UploadPlan, reloaded.Agrees upload → admitUpload prims handle source reloaded = .ok () := by
  obtain ⟨_, hhandle, h⟩ := bind_eq_ok.mp h
  obtain ⟨_, h⟩ := ensure_bind_eq_ok.mp h
  obtain ⟨_, h⟩ := ensure_bind_eq_ok.mp h
  obtain ⟨metadata, _, h⟩ := bind_eq_ok.mp h
  obtain ⟨partBytes, _, h⟩ := bind_eq_ok.mp h
  obtain ⟨⟨identity, parts⟩, hinspect, h⟩ := bind_eq_ok.mp h
  obtain ⟨warnings, _, h⟩ := bind_eq_ok.mp h
  cases h
  refine ⟨rfl, _, rfl, rfl, rfl, inspectSource_spec hinspect, ?_⟩
  rintro reloaded ⟨hdriver, hsource, _, _, _, hpartBytes, hparts⟩
  have hvalid : handle.validate = .ok () := mapError_eq_ok.mp hhandle
  have hcurrent : validateCurrentHandle handle reloaded.driver = .ok () := by
    rw [validateCurrentHandle, mapError_eq_ok.mpr hvalid, ok_bind, hdriver]
    simp
  rw [admitUpload, hcurrent, ok_bind, hpartBytes, hinspect, ok_bind, hsource, hparts]
  simp

theorem prepareDownload_spec {isRealDirectory : Text → Bool} {handle : Handle}
    {stat : Text → Except DriverError Object} {object : Object} {checksum destination : Text}
    {options : DownloadOptions} {journalID : Identity} {now : Int64} {plan : PlanRecord}
    (h : prepareDownload isRealDirectory handle stat object checksum destination options journalID now = .ok plan) :
    plan.direction = .download ∧ ∃ download, plan.download = some download ∧ download.driver = handle.descriptor ∧
      download.object = object ∧ download.destination = destination ∧
      download.stagingPath = stagingPath destination journalID ∧
      ∀ reloaded : DownloadPlan, reloaded.Agrees download → validateCurrentHandle handle reloaded.driver = .ok () := by
  obtain ⟨_, hhandle, h⟩ := bind_eq_ok.mp h
  obtain ⟨_, h⟩ := ensure_bind_eq_ok.mp h
  obtain ⟨_, _, h⟩ := bind_eq_ok.mp h
  obtain ⟨_, _, h⟩ := bind_eq_ok.mp h
  obtain ⟨_, _, h⟩ := bind_eq_ok.mp h
  obtain ⟨_, h⟩ := ensure_bind_eq_ok.mp h
  obtain ⟨blockBytes, _, h⟩ := bind_eq_ok.mp h
  obtain ⟨blocks, _, h⟩ := bind_eq_ok.mp h
  obtain ⟨warnings, _, h⟩ := bind_eq_ok.mp h
  cases h
  refine ⟨rfl, _, rfl, rfl, rfl, rfl, rfl, ?_⟩
  rintro reloaded ⟨hdriver, _⟩
  have hvalid : handle.validate = .ok () := mapError_eq_ok.mp hhandle
  rw [validateCurrentHandle, mapError_eq_ok.mpr hvalid, ok_bind, hdriver]
  simp

def SourceIsText (source : ReplayableSource) : Prop :=
  ∀ metadata, source.before = .ok metadata →
    Utf8.valid metadata.kind = true ∧ Utf8.valid metadata.reference = true ∧ Utf8.valid metadata.version = true

/-- A plan that preparation stores survives exactly where what went into it is text and the driver has no empty slice of
algorithms: then the same driver and source are admitted again, and a download goes to the destination that was asked
for. -/
theorem preparedPlans_survive_iff (prims : Primitives) :
    (∀ (handle : Handle) (source : ReplayableSource) (storageKey : Text) (options : UploadOptions)
      (journalID : Identity) (now : Int64) (plan : PlanRecord) (content : List UInt8),
      prepareUpload prims handle source storageKey options journalID now = .ok plan →
      storePlan prims plan = .ok content →
      ((∃ upload reloaded, plan.upload = some upload ∧ UploadReloads prims content upload reloaded ∧
          admitUpload prims handle source reloaded = .ok ()) ↔
        DescriptorIsText handle.descriptor ∧ SourceIsText source ∧ Utf8.valid storageKey = true)) ∧
    ∀ (isRealDirectory : Text → Bool) (handle : Handle) (stat : Text → Except DriverError Object) (object : Object)
      (checksum destination : Text) (options : DownloadOptions) (journalID : Identity) (now : Int64)
      (plan : PlanRecord) (content : List UInt8),
      prepareDownload isRealDirectory handle stat object checksum destination options journalID now = .ok plan →
      storePlan prims plan = .ok content →
      ((∃ download reloaded, plan.download = some download ∧ DownloadReloads prims content download reloaded ∧
          validateCurrentHandle handle reloaded.driver = .ok () ∧ reloaded.destination = destination) ↔
        DescriptorIsText handle.descriptor ∧ ObjectIsText object ∧ Utf8.valid destination = true) := by
  constructor
  · intro handle source storageKey options journalID now plan content hprepare hstore
    obtain ⟨hdirection, upload, hupload, hdriver, hkey, ⟨metadata, hbefore, hkind, hreference, hversion⟩, hadmit⟩ :=
      prepareUpload_spec hprepare
    have hreloads := uploadReloads_iff hstore hdirection hupload
    have htext : UploadIsText upload ↔
        DescriptorIsText handle.descriptor ∧ SourceIsText source ∧ Utf8.valid storageKey = true := by
      simp only [UploadIsText, SourceIsText, hdriver, hkey, hkind, hreference, hversion, hbefore, Except.ok.injEq,
        forall_eq']
    rw [← htext, ← hreloads]
    constructor
    · rintro ⟨_, reloaded, hsame, hreload, _⟩
      rw [hupload, Option.some.injEq] at hsame
      exact ⟨reloaded, hsame ▸ hreload⟩
    · rintro ⟨reloaded, hreload⟩
      obtain ⟨_, _, _, _, hagrees⟩ := id hreload
      exact ⟨upload, reloaded, hupload, hreload, hadmit reloaded hagrees⟩
  · intro isRealDirectory handle stat object checksum destination options journalID now plan content hprepare hstore
    obtain ⟨hdirection, download, hdownload, hdriver, hobject, hdestination, hstaging, hadmit⟩ :=
      prepareDownload_spec hprepare
    have hreloads := downloadReloads_iff hstore hdirection hdownload
    have htext : DownloadIsText download ↔
        DescriptorIsText handle.descriptor ∧ ObjectIsText object ∧ Utf8.valid destination = true := by
      rw [DownloadIsText, hdriver, hobject, hdestination, hstaging]
      constructor
      · rintro ⟨hdescriptor, hidentity, hpath, _⟩
        exact ⟨hdescriptor, hidentity, hpath⟩
      · rintro ⟨hdescriptor, hidentity, hpath⟩
        exact ⟨hdescriptor, hidentity, hpath, valid_stagingPath hpath journalID⟩
    rw [← htext, ← hreloads]
    constructor
    · rintro ⟨_, reloaded, hsame, hreload, _⟩
      rw [hdownload, Option.some.injEq] at hsame
      exact ⟨reloaded, hsame ▸ hreload⟩
    · rintro ⟨reloaded, hreload⟩
      obtain ⟨_, _, _, _, hagrees⟩ := id hreload
      have hpath : reloaded.destination = download.destination := hagrees.2.2.2.1
      exact ⟨download, reloaded, hdownload, hreload, hadmit reloaded hagrees, hpath.trans hdestination⟩

/-! ### One driver, one source and two destinations -/

theorem exists_of_any {first : Except JournalError PlanRecord} {next : PlanRecord → Except JournalError (List UInt8)}
    {test : PlanRecord → Bool}
    (h : (first.bind fun plan => (next plan).map fun _ => plan).toOption.any test = true) :
    ∃ plan content, first = .ok plan ∧ next plan = .ok content ∧ test plan = true := by
  cases first with
  | error => cases h
  | ok plan =>
      cases hnext : next plan with
      | error => simp [Except.bind, hnext, Except.map, Except.toOption] at h
      | ok content =>
          simp only [Except.bind, hnext, Except.map, Except.toOption, Option.any_some] at h
          exact ⟨plan, content, rfl, hnext, h⟩

/-- A hash that no statement about plans depends on. -/
def constantHash : Primitives := { sha256 := fun _ => Bytes.zero 32, isNfc := fun _ => true }

/-- A driver that moves complete objects and nothing else. -/
def completeDriver : Descriptor :=
  { id := utf8 "disk", kind := utf8 "local/v1", summary := utf8 "local disk"
    capabilities :=
      { read := { complete := .native, range := .unavailable, maxParallelRanges := 0, maximumRangeBytes := 0 }
        write :=
          { complete := .native, resume := .unavailable, parallelParts := .unavailable, partOrdering := .none
            maxParallelParts := 0, minimumNonFinalPartBytes := 0, maximumPartBytes := 0, maximumParts := 0
            uploadSessionTTLSeconds := 0 }
        delete := .unavailable, inventory := .unavailable, serverSideCopy := .unavailable
        integrity := { strongUploadChecksum := .unavailable, algorithms := none, requiresReadback := true }
        maximumObjectBytes := 0, preferredPartBytes := 0, safeConcurrency := 1 } }

def completeHandle : Handle :=
  { descriptor := completeDriver, hasReader := true, hasRangeReader := false, hasWriter := true
    hasResumableWriter := false, hasDeleter := false, hasInventory := false }

def emptyObject : Object :=
  { locator := { storageKey := utf8 "key", nativeID := [], version := [], etag := [] }, sizeBytes := 0 }

def plainDownload : DownloadOptions :=
  { blockBytes := 0, requireRange := false, requireParallel := false, alternatives := [] }

/-- A driver that moves parts and ranges, at most eight bytes each. -/
def partDriver : Descriptor :=
  { id := utf8 "bucket", kind := utf8 "object/v1", summary := utf8 "object store"
    capabilities :=
      { read := { complete := .native, range := .native, maxParallelRanges := 2, maximumRangeBytes := 8 }
        write :=
          { complete := .native, resume := .native, parallelParts := .native, partOrdering := .arbitrary
            maxParallelParts := 2, minimumNonFinalPartBytes := 4, maximumPartBytes := 8, maximumParts := 100
            uploadSessionTTLSeconds := 3600 }
        delete := .unavailable, inventory := .unavailable, serverSideCopy := .unavailable
        integrity := { strongUploadChecksum := .native, algorithms := some [utf8 "sha256"], requiresReadback := false }
        maximumObjectBytes := 0, preferredPartBytes := 4, safeConcurrency := 2 } }

def partHandle : Handle :=
  { descriptor := partDriver, hasReader := true, hasRangeReader := true, hasWriter := true
    hasResumableWriter := true, hasDeleter := false, hasInventory := false }

def note : List UInt8 := utf8 "0123456789"

def noteMetadata : SourceMetadata :=
  { kind := utf8 "bytes/v1", reference := utf8 "note", version := utf8 "1", sizeBytes := 10 }

def noteSource : ReplayableSource :=
  { before := .ok noteMetadata, after := .ok noteMetadata
    openRange := fun offset length => .ok ((note.drop offset.toNat).take length.toNat) }

def noteObject : Object :=
  { locator := { storageKey := utf8 "key", nativeID := utf8 "1", version := utf8 "v1", etag := utf8 "\"e\"" }
    sizeBytes := 10 }

def checkedUpload : UploadOptions :=
  { partBytes := 0, requireResumable := true, requireParallel := true, requireStrongChecksum := true
    alternatives := [] }

def rangedDownload : DownloadOptions :=
  { blockBytes := 4, requireRange := true, requireParallel := true, alternatives := [] }

theorem partDriver_isText : DescriptorIsText partDriver := by
  refine ⟨by decide, by decide, by decide, by simp [partDriver], ?_⟩
  simp only [partDriver, Option.getD_some, List.mem_singleton, forall_eq]
  decide

/-- An upload of three parts and a download of three blocks to `/file`, each stored and admitted again. -/
theorem preparedPlans_survive_pieces :
    (∃ plan content upload reloaded,
      prepareUpload constantHash partHandle noteSource (utf8 "key") checkedUpload (Bytes.zero 16) 1 = .ok plan ∧
      storePlan constantHash plan = .ok content ∧ plan.upload = some upload ∧ upload.parts.length = 3 ∧
      UploadReloads constantHash content upload reloaded ∧
      admitUpload constantHash partHandle noteSource reloaded = .ok ()) ∧
    ∃ plan content download reloaded,
      prepareDownload (fun _ => true) partHandle (fun _ => .ok noteObject) noteObject
        (hexEncode (Bytes.zero 32).val) (utf8 "/file") rangedDownload (Bytes.zero 16) 1 = .ok plan ∧
      storePlan constantHash plan = .ok content ∧ plan.download = some download ∧ download.blocks.length = 3 ∧
      DownloadReloads constantHash content download reloaded ∧
      validateCurrentHandle partHandle reloaded.driver = .ok () ∧ reloaded.destination = utf8 "/file" := by
  constructor
  · have hrun : ((prepareUpload constantHash partHandle noteSource (utf8 "key") checkedUpload (Bytes.zero 16) 1).bind
        fun plan => (storePlan constantHash plan).map fun _ => plan).toOption.any
          (fun plan => plan.upload.all fun upload => upload.parts.length == 3) = true := by
      decide +kernel
    obtain ⟨plan, content, hprepare, hstore, hparts⟩ := exists_of_any hrun
    have hsource : SourceIsText noteSource := by
      intro metadata hmetadata
      cases hmetadata
      exact ⟨by decide +kernel, by decide +kernel, by decide +kernel⟩
    obtain ⟨upload, reloaded, hupload, hreloads, hadmit⟩ := ((preparedPlans_survive_iff constantHash).1 partHandle
      noteSource (utf8 "key") checkedUpload (Bytes.zero 16) 1 plan content hprepare hstore).mpr
        ⟨partDriver_isText, hsource, by decide +kernel⟩
    rw [hupload, Option.all_some, beq_iff_eq] at hparts
    exact ⟨plan, content, upload, reloaded, hprepare, hstore, hupload, hparts, hreloads, hadmit⟩
  · have hrun : ((prepareDownload (fun _ => true) partHandle (fun _ => .ok noteObject) noteObject
        (hexEncode (Bytes.zero 32).val) (utf8 "/file") rangedDownload (Bytes.zero 16) 1).bind
        fun plan => (storePlan constantHash plan).map fun _ => plan).toOption.any
          (fun plan => plan.download.all fun download => download.blocks.length == 3) = true := by
      decide +kernel
    obtain ⟨plan, content, hprepare, hstore, hblocks⟩ := exists_of_any hrun
    have hobject : ObjectIsText noteObject := by
      exact ⟨by decide +kernel, by decide +kernel, by decide +kernel, by decide +kernel⟩
    obtain ⟨download, reloaded, hdownload, hreloads, hadmit, hdestination⟩ :=
      ((preparedPlans_survive_iff constantHash).2 (fun _ => true) partHandle (fun _ => .ok noteObject) noteObject
        (hexEncode (Bytes.zero 32).val) (utf8 "/file") rangedDownload (Bytes.zero 16) 1 plan content hprepare hstore).mpr
          ⟨partDriver_isText, hobject, by decide +kernel⟩
    rw [hdownload, Option.all_some, beq_iff_eq] at hblocks
    exact ⟨plan, content, download, reloaded, hprepare, hstore, hdownload, hblocks, hreloads, hadmit, hdestination⟩

/-- Where a stored plan sends the bytes that were to go to a destination. -/
def reloadedDestination (destination : Text) : Except JournalError (Option Text) := do
  let plan ← prepareDownload (fun _ => true) completeHandle (fun _ => .ok emptyObject) emptyObject
    (hexEncode (Bytes.zero 32).val) destination plainDownload (Bytes.zero 16) 1
  let content ← storePlan constantHash plan
  let (loaded, _) ← loadPlan constantHash content
  .ok (loaded.download.map (·.destination))

/-- A destination that is no UTF-8 is accepted, stored, and replaced by another one. -/
theorem preparedPlans_lose_destination :
    reloadedDestination [0x2F, 0xFF] = .ok (some [0x2F, 0xEF, 0xBF, 0xBD]) ∧
      ([0x2F, 0xFF] : Text) ≠ [0x2F, 0xEF, 0xBF, 0xBD] := by
  constructor
  · decide +kernel
  · decide

end Skydriver.Journal
