import Skydriver.Catalog.Checkpoint
import Skydriver.Integrity.Success

/-!
# What the checks of a single directory node mean

Identities are lowercase hexadecimal texts with exactly one spelling, entries have exactly one checkpoint form, and
the node loop of the validator accepts exactly distinct nodes that carry the Merkle root of their entries.
-/

namespace Skydriver

open Checked

/-! ### Hexadecimal identities -/

/-- The text is the spelling of a nonzero identity of `width` bytes. -/
def IsIdentity (width : Nat) (text : Text) : Prop := ∃ bytes : Bytes width, bytes ≠ .zero width ∧ text = hexEncode bytes.val

private theorem hexEncode_isHex (bytes : List UInt8) :
    (hexEncode bytes).all (fun byte => (hexValue byte).isSome) = true := by
  have hdigit : ∀ digit, digit < 16 → (hexValue (hexDigit digit)).isSome = true := by decide
  induction bytes with
  | nil => rfl
  | cons byte rest ih =>
      have hbound := byte.toNat_lt
      simp only [hexEncode, List.all_cons, hdigit (byte.toNat / 16) (by omega), hdigit (byte.toNat % 16) (by omega), ih,
        Bool.and_self]

private theorem hexEncode_zeros {bytes : List UInt8} :
    (hexEncode bytes).all (· == 48) = true ↔ bytes = List.replicate bytes.length 0 := by
  have hdigit : ∀ digit, digit < 16 → (hexDigit digit == 48) = decide (digit = 0) := by decide
  induction bytes with
  | nil => simp [hexEncode]
  | cons byte rest ih =>
      have hbound := byte.toNat_lt
      simp only [hexEncode, List.all_cons, hdigit (byte.toNat / 16) (by omega), hdigit (byte.toNat % 16) (by omega),
        Bool.and_eq_true, decide_eq_true_eq, ih, List.length_cons, List.replicate_succ, List.cons.injEq]
      constructor
      · rintro ⟨hhigh, hlow, hrest⟩
        exact ⟨UInt8.toNat_inj.mp (by simp; omega), hrest⟩
      · rintro ⟨rfl, hrest⟩
        exact ⟨rfl, rfl, hrest⟩

theorem decodeHex_eq_ok {width : Nat} {value : Text} {message : String} {bytes : Bytes width} :
    decodeHex width value message = .ok bytes ↔ value = hexEncode bytes.val ∧ bytes ≠ .zero width := by
  rw [decodeHex, ensure_bind_eq_ok, bind_eq_ok]
  simp only [Bool.and_eq_true, beq_iff_eq, Bool.not_eq_true', orFail_eq_ok]
  constructor
  · rintro ⟨⟨⟨_, hnonzero⟩, _⟩, decoded, hdecoded, hresult⟩
    split_ifs at hresult with hlength
    cases hresult
    have hvalue := hexEncode_of_hexDecode hdecoded
    refine ⟨hvalue.symm, fun hzero => ?_⟩
    rw [← hvalue, ← Bool.not_eq_true, hexEncode_zeros, hlength] at hnonzero
    exact hnonzero (congrArg Subtype.val hzero)
  · rintro ⟨rfl, hnonzero⟩
    refine ⟨⟨⟨by simp [Nat.mul_comm], ?_⟩, hexEncode_isHex _⟩, bytes.val, hexDecode_hexEncode _, ?_⟩
    · rw [← Bool.not_eq_true, hexEncode_zeros, Bytes.length_val]
      exact fun hzero => hnonzero (Bytes.ext hzero)
    · rw [dif_pos bytes.length_val]
      rfl

theorem decodeHex_succeeds_iff {width : Nat} {value : Text} (message : String) :
    (∃ bytes, decodeHex width value message = .ok bytes) ↔ IsIdentity width value := by
  simp only [decodeHex_eq_ok, IsIdentity, and_comm]

theorem decodeHex_bind_eq_ok {width : Nat} {value : Text} {message : String} {β : Type} {next : Except Error β}
    {result : β} :
    (decodeHex width value message >>= fun _ => next) = .ok result ↔ IsIdentity width value ∧ next = .ok result := by
  rw [bind_eq_ok, ← decodeHex_succeeds_iff message]
  constructor
  · rintro ⟨bytes, hbytes, hnext⟩
    exact ⟨⟨bytes, hbytes⟩, hnext⟩
  · rintro ⟨⟨bytes, hbytes⟩, hnext⟩
    exact ⟨bytes, hbytes, hnext⟩

/-! ### Committed entries -/

/-- The only checkpoint spelling of a committed entry. -/
def catalogEntry : DirectoryMerkleEntry → CatalogCheckpointEntry
  | .file name stableId versionId sizeBytes dataRoot metadataRoot =>
      { name, kind := .file, fileId := some (hexEncode stableId.val), versionId := some (hexEncode versionId.val),
        childDirectoryId := none, sizeBytes, dataRoot := hexEncode dataRoot.val,
        metadataRoot := some (hexEncode metadataRoot.val) }
  | .directory name stableId dataRoot =>
      { name, kind := .directory, fileId := none, versionId := none,
        childDirectoryId := some (hexEncode stableId.val), sizeBytes := 0, dataRoot := hexEncode dataRoot.val,
        metadataRoot := none }

@[simp] theorem catalogEntry_name (entry : DirectoryMerkleEntry) : (catalogEntry entry).name = entryName entry := by
  cases entry <;> rfl

def NonzeroIdentities : DirectoryMerkleEntry → Prop
  | .file _ stableId versionId _ dataRoot metadataRoot =>
      stableId ≠ .zero 16 ∧ versionId ≠ .zero 16 ∧ dataRoot ≠ .zero 32 ∧ metadataRoot ≠ .zero 32
  | .directory _ stableId dataRoot => stableId ≠ .zero 16 ∧ dataRoot ≠ .zero 32

theorem validateDirectoryEntry_nonzero {prims : Primitives} {entry : DirectoryMerkleEntry}
    (h : validateDirectoryEntry prims entry = .ok ()) : NonzeroIdentities entry := by
  cases entry with
  | file name stableId versionId sizeBytes dataRoot metadataRoot =>
      simp only [validateDirectoryEntry, ensure_bind_eq_ok, ensure_eq_ok, Bool.and_eq_true, decide_eq_true_eq] at h
      exact ⟨h.2.1.1.1, h.2.1.1.2, h.2.1.2, h.2.2⟩
  | directory name stableId dataRoot =>
      simp only [validateDirectoryEntry, ensure_bind_eq_ok, ensure_eq_ok, Bool.and_eq_true, decide_eq_true_eq] at h
      exact h.2

theorem merkleEntry_eq_ok {entry : CatalogCheckpointEntry} {committed : DirectoryMerkleEntry} :
    merkleEntry entry = .ok committed ↔ entry = catalogEntry committed ∧ NonzeroIdentities committed := by
  constructor
  · intro h
    obtain ⟨name, kind, fileId, versionId, childDirectoryId, sizeBytes, dataRoot, metadataRoot⟩ := entry
    rw [merkleEntry, bind_eq_ok] at h
    obtain ⟨root, hroot, h⟩ := h
    rw [decodeHex_eq_ok] at hroot
    obtain ⟨rfl, hroot⟩ := hroot
    split at h
    · simp only [bind_eq_ok, decodeHex_eq_ok] at h
      obtain ⟨stable, ⟨rfl, hstable⟩, version, ⟨rfl, hversion⟩, metadata, ⟨rfl, hmetadata⟩, hcommitted⟩ := h
      cases hcommitted
      simp_all [catalogEntry, NonzeroIdentities]
    · rw [ensure_bind_eq_ok, bind_eq_ok, beq_iff_eq] at h
      simp only [decodeHex_eq_ok] at h
      obtain ⟨hsize, stable, ⟨rfl, hstable⟩, hcommitted⟩ := h
      cases hcommitted
      simp_all [catalogEntry, NonzeroIdentities]
    · cases h
  · rintro ⟨rfl, hnonzero⟩
    cases committed with
    | file name stableId versionId sizeBytes dataRoot metadataRoot =>
        obtain ⟨hstable, hversion, hdata, hmetadata⟩ := hnonzero
        simp only [merkleEntry, catalogEntry, bind_eq_ok, decodeHex_eq_ok]
        exact ⟨dataRoot, ⟨rfl, hdata⟩, stableId, ⟨rfl, hstable⟩, versionId, ⟨rfl, hversion⟩, metadataRoot,
          ⟨rfl, hmetadata⟩, rfl⟩
    | directory name stableId dataRoot =>
        obtain ⟨hstable, hdata⟩ := hnonzero
        simp only [merkleEntry, catalogEntry, bind_eq_ok, decodeHex_eq_ok, ensure_eq_ok]
        exact ⟨dataRoot, ⟨rfl, hdata⟩, (), rfl, stableId, ⟨rfl, hstable⟩, rfl⟩

theorem traverse_merkleEntry_eq_ok {entries : List CatalogCheckpointEntry} {committed : List DirectoryMerkleEntry} :
    Checked.traverse merkleEntry entries = .ok committed ↔
      entries = committed.map catalogEntry ∧ ∀ entry ∈ committed, NonzeroIdentities entry := by
  rw [traverse_eq_ok]
  simp only [merkleEntry_eq_ok]
  constructor
  · intro h
    induction h with
    | nil => simp
    | cons hentry _ ih =>
        rw [List.map_cons, List.forall_mem_cons, ← hentry.1, ← ih.1]
        exact ⟨rfl, hentry.2, ih.2⟩
  · rintro ⟨rfl, hnonzero⟩
    rw [List.forall₂_map_left_iff]
    exact List.forall₂_same.mpr fun entry hentry => ⟨rfl, hnonzero entry hentry⟩

/-- The text of a directory root is the Merkle root of the entries. -/
def CommitsTo (prims : Primitives) (dataRoot : Text) (entries : List CatalogCheckpointEntry) : Prop :=
  ∃ committed root, entries = committed.map catalogEntry ∧ directoryMerkleRoot prims committed = .ok root ∧
    dataRoot = hexEncode root.val

theorem CommitsTo.entry {prims : Primitives} {dataRoot : Text} {entries : List CatalogCheckpointEntry}
    (h : CommitsTo prims dataRoot entries) {entry : CatalogCheckpointEntry} (hentry : entry ∈ entries) :
    ∃ committed, entry = catalogEntry committed ∧ NonzeroIdentities committed := by
  obtain ⟨committed, root, rfl, hroot, _⟩ := h
  obtain ⟨value, hvalue, rfl⟩ := List.mem_map.mp hentry
  obtain ⟨_, hvalid, _⟩ := directoryMerkleRoot_succeeds_iff.mp ⟨root, hroot⟩
  exact ⟨value, rfl, validateDirectoryEntry_nonzero (hvalid value hvalue)⟩

theorem CommitsTo.directory_entry {prims : Primitives} {dataRoot : Text} {entries : List CatalogCheckpointEntry}
    (h : CommitsTo prims dataRoot entries) {entry : CatalogCheckpointEntry} (hentry : entry ∈ entries)
    (hkind : entry.kind = .directory) :
    IsIdentity 32 entry.dataRoot ∧ ∃ child, entry.childDirectoryId = some child ∧ IsIdentity 16 child := by
  obtain ⟨committed, rfl, hnonzero⟩ := h.entry hentry
  cases committed with
  | file name stableId versionId sizeBytes dataRoot metadataRoot => cases hkind
  | directory name stableId dataRoot =>
      exact ⟨⟨dataRoot, hnonzero.2, rfl⟩, _, rfl, stableId, hnonzero.1, rfl⟩

theorem validateEntries_eq_ok {prims : Primitives} {directory : CatalogCheckpointDirectory} {root : Digest} :
    validateEntries prims directory root = .ok () ↔
      KeyOrder.StrictlyOrdered CatalogCheckpointEntry.name directory.entries ∧
      ∃ committed, directory.entries = committed.map catalogEntry ∧ directoryMerkleRoot prims committed = .ok root := by
  rw [validateEntries, ensure_bind_eq_ok, KeyOrder.windowsAscend_iff, bind_eq_ok]
  simp only [bind_eq_ok, ensure_eq_ok, decide_eq_true_eq, traverse_merkleEntry_eq_ok]
  refine and_congr_right fun _ => ?_
  constructor
  · rintro ⟨committed, ⟨hentries, _⟩, _, hroot, rfl⟩
    exact ⟨committed, hentries, hroot⟩
  · rintro ⟨committed, hentries, hroot⟩
    obtain ⟨_, hvalid, _⟩ := directoryMerkleRoot_succeeds_iff.mp ⟨root, hroot⟩
    exact ⟨committed, ⟨hentries, fun entry hentry => validateDirectoryEntry_nonzero (hvalid entry hentry)⟩, root, hroot,
      rfl⟩

/-- What the node loop demands of each directory on its own. -/
structure WellFormedDirectory (prims : Primitives) (directory : CatalogCheckpointDirectory) : Prop where
  identity : IsIdentity 16 directory.directoryId
  parent : ∀ parent, directory.parentDirectoryId = some parent →
    IsIdentity 16 parent ∧ parent ≠ directory.directoryId
  rootIdentity : IsIdentity 32 directory.dataRoot
  entryOrder : KeyOrder.StrictlyOrdered CatalogCheckpointEntry.name directory.entries
  root : CommitsTo prims directory.dataRoot directory.entries

theorem validateParent_eq_ok {directory : CatalogCheckpointDirectory} :
    validateParent directory = .ok () ↔ ∀ parent, directory.parentDirectoryId = some parent →
      IsIdentity 16 parent ∧ parent ≠ directory.directoryId := by
  unfold validateParent
  cases directory.parentDirectoryId with
  | none => simp
  | some parent => simp [decodeHex_bind_eq_ok]

theorem decode_validateEntries_iff {prims : Primitives} {directory : CatalogCheckpointDirectory} (message : String) :
    (∃ root, decodeHex 32 directory.dataRoot message = .ok root ∧ validateEntries prims directory root = .ok ()) ↔
      IsIdentity 32 directory.dataRoot ∧ KeyOrder.StrictlyOrdered CatalogCheckpointEntry.name directory.entries ∧
        CommitsTo prims directory.dataRoot directory.entries := by
  simp only [decodeHex_eq_ok, validateEntries_eq_ok]
  constructor
  · rintro ⟨root, ⟨hspelling, hnonzero⟩, horder, committed, hentries, hroot⟩
    exact ⟨⟨root, hnonzero, hspelling⟩, horder, committed, root, hentries, hroot, hspelling⟩
  · rintro ⟨⟨bytes, hnonzero, hbytes⟩, horder, committed, root, hentries, hroot, hspelling⟩
    obtain rfl : bytes = root := Bytes.ext (hexEncode_injective (hbytes.symm.trans hspelling))
    exact ⟨bytes, ⟨hspelling, hnonzero⟩, horder, committed, hentries, hroot⟩

/-- The node loop accepts exactly distinct well-formed directories whose entries stay within the bound. -/
theorem validateDirectories_eq_ok {prims : Primitives} {entryCount : Nat} {indexed : List Text}
    {directories : List CatalogCheckpointDirectory} (hcount : entryCount ≤ maximumCatalogEntries) :
    validateDirectories prims entryCount indexed directories = .ok () ↔
      (∀ directory ∈ directories, WellFormedDirectory prims directory) ∧
      (∀ directory ∈ directories, directory.directoryId ∉ indexed) ∧
      (directories.map CatalogCheckpointDirectory.directoryId).Nodup ∧
      entryCount + (directories.map fun directory => directory.entries.length).sum ≤ maximumCatalogEntries := by
  induction directories generalizing entryCount indexed with
  | nil => simp [validateDirectories, hcount]
  | cons directory directories ih =>
      rw [validateDirectories, decodeHex_bind_eq_ok, bind_eq_ok]
      constructor
      · rintro ⟨hidentity, _, hparent, h⟩
        obtain ⟨root, hroot, h⟩ := bind_eq_ok.mp h
        rw [ensure_bind_eq_ok, ensure_bind_eq_ok, bind_eq_ok] at h
        obtain ⟨hfresh, hbound, _, hentries, hrest⟩ := h
        obtain ⟨hrootIdentity, horder, hcommits⟩ := (decode_validateEntries_iff _).mp ⟨root, hroot, hentries⟩
        obtain ⟨hall, hdisjoint, hnodup, hsum⟩ := (ih (decide_eq_true_eq.mp hbound)).mp hrest
        simp only [List.mem_cons, not_or] at hdisjoint
        simp only [List.forall_mem_cons, List.map_cons, List.nodup_cons, List.mem_map, List.sum_cons]
        refine ⟨⟨⟨hidentity, validateParent_eq_ok.mp hparent, hrootIdentity, horder, hcommits⟩, hall⟩,
          ⟨decide_eq_true_eq.mp hfresh, fun other hother => (hdisjoint other hother).2⟩, ⟨?_, hnodup⟩, by omega⟩
        rintro ⟨other, hother, hsame⟩
        exact (hdisjoint other hother).1 hsame
      · simp only [List.forall_mem_cons, List.map_cons, List.nodup_cons, List.mem_map, List.sum_cons]
        rintro ⟨⟨hdirectory, hall⟩, ⟨hfresh, hdisjoint⟩, ⟨hnew, hnodup⟩, hsum⟩
        obtain ⟨root, hroot, hentries⟩ := (decode_validateEntries_iff "catalog directory root").mpr
          ⟨hdirectory.rootIdentity, hdirectory.entryOrder, hdirectory.root⟩
        refine ⟨hdirectory.identity, (), validateParent_eq_ok.mpr hdirectory.parent, bind_eq_ok.mpr ⟨root, hroot, ?_⟩⟩
        rw [ensure_bind_eq_ok, ensure_bind_eq_ok, bind_eq_ok]
        have hbound : entryCount + directory.entries.length ≤ maximumCatalogEntries := by omega
        refine ⟨decide_eq_true_eq.mpr hfresh, decide_eq_true_eq.mpr hbound, (), hentries, (ih hbound).mpr
          ⟨hall, fun other hother => ?_, hnodup, by omega⟩⟩
        simp only [List.mem_cons, not_or]
        exact ⟨fun hsame => hnew ⟨other, hother, hsame⟩, hdisjoint other hother⟩

end Skydriver
