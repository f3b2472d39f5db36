import Skydriver.Integrity.Directory
import Skydriver.Lib.StrictJson

/-!
# The journal of a multipart upload

The journal names the upload, the object and the tags of the parts that arrived.  It is stored as a JSON record, and what
was stored is read back as it was.
-/

namespace Skydriver.Multipart

open Json (decimal scanNatural skipBlank)
open StrictJson (quote scanObject scanString scanU64 expect objectText Reads)

/-- The tags of parts by their numbers, in ascending order. -/
abbrev PartTags := Std.ExtTreeMap Nat Text

structure MultipartJournal where
  schema : Text
  intentId : Text
  uploadId : Text
  encodedBytes : Nat
  encodedSha256 : Text
  partBytes : Nat
  etags : PartTags

/-- `valid_etag`. -/
def validEtag (value : Text) : Bool :=
  !value.isEmpty && value.length ≤ 256 && value.all fun byte =>
    (48 ≤ byte && byte ≤ 57) || (65 ≤ byte && byte ≤ 90) || (97 ≤ byte && byte ≤ 122) || byte == 0x2D || byte == 0x5F ||
      byte == 0x2E

def journalSchema : Text := utf8 "skydriver.r2-multipart-journal.v1"

/-- What `load_journal` asks of a decoded journal. -/
def MultipartJournal.valid (journal : MultipartJournal) : Bool :=
  journal.schema == journalSchema && !journal.uploadId.isEmpty && journal.uploadId.length ≤ 1024 &&
    journal.etags.toList.all fun part => part.1 != 0 && validEtag part.2

/-! ### Its text -/

def tagMember (part : Nat × Text) : Text × Text := (decimal part.1, quote part.2)

def tagsText (etags : PartTags) : Text := 0x7B :: objectText (etags.toList.map tagMember)

def MultipartJournal.members (journal : MultipartJournal) : List (Text × Text) :=
  [(utf8 "schema", quote journal.schema), (utf8 "intent_id", quote journal.intentId),
    (utf8 "upload_id", quote journal.uploadId), (utf8 "encoded_bytes", decimal journal.encodedBytes),
    (utf8 "encoded_sha256", quote journal.encodedSha256), (utf8 "part_bytes", decimal journal.partBytes),
    (utf8 "etags", tagsText journal.etags)]

def MultipartJournal.wellTyped (journal : MultipartJournal) : Bool :=
  Utf8.valid journal.schema && Utf8.valid journal.intentId && Utf8.valid journal.uploadId &&
    Utf8.valid journal.encodedSha256 && journal.encodedBytes < 2 ^ 64 && journal.partBytes < 2 ^ 64 &&
      journal.etags.toList.all fun part => part.1 < 2 ^ 32 && Utf8.valid part.2

def MultipartJournal.toVec (journal : MultipartJournal) : Option (List UInt8) :=
  if journal.wellTyped then some (0x7B :: objectText journal.members) else none

/-! ### Reading -/

def readPartNumber (name : List UInt8) : Option Nat :=
  match scanNatural name with
  | some (number, []) => if number < 2 ^ 32 then some number else none
  | _ => none

def readTag (name : List UInt8) (etags : PartTags) (value : List UInt8) : Option (PartTags × List UInt8) := do
  let number ← readPartNumber name
  let (etag, behind) ← scanString value
  some (etags.insert number etag, behind)

def readTags (value : List UInt8) : Option (PartTags × List UInt8) :=
  match value with
  | [] => none
  | byte :: rest => if byte = 0x7B then scanObject readTag rest.length ∅ rest else none

/-- The members of a journal read so far. -/
structure PartialJournal where
  schema : Option Text
  intentId : Option Text
  uploadId : Option Text
  encodedBytes : Option Nat
  encodedSha256 : Option Text
  partBytes : Option Nat
  etags : Option PartTags

def PartialJournal.empty : PartialJournal := ⟨none, none, none, none, none, none, none⟩

/-- A journal of which every member was read. -/
def PartialJournal.complete (journal : PartialJournal) : Option MultipartJournal := do
  let schema ← journal.schema
  let intentId ← journal.intentId
  let uploadId ← journal.uploadId
  let encodedBytes ← journal.encodedBytes
  let encodedSha256 ← journal.encodedSha256
  let partBytes ← journal.partBytes
  let etags ← journal.etags
  some ⟨schema, intentId, uploadId, encodedBytes, encodedSha256, partBytes, etags⟩

def readOnce {α : Type} (known : Option α) (scan : List UInt8 → Option (α × List UInt8)) (store : α → PartialJournal)
    (value : List UInt8) : Option (PartialJournal × List UInt8) :=
  if known.isSome then none else (scan value).map fun (found, behind) => (store found, behind)

/-- The value of one member; no member comes twice and none is unknown. -/
def readJournalMember (name : List UInt8) (journal : PartialJournal) (value : List UInt8) :
    Option (PartialJournal × List UInt8) :=
  if name = utf8 "schema" then
    readOnce journal.schema scanString (fun found => { journal with schema := some found }) value
  else if name = utf8 "intent_id" then
    readOnce journal.intentId scanString (fun found => { journal with intentId := some found }) value
  else if name = utf8 "upload_id" then
    readOnce journal.uploadId scanString (fun found => { journal with uploadId := some found }) value
  else if name = utf8 "encoded_bytes" then
    readOnce journal.encodedBytes scanU64 (fun found => { journal with encodedBytes := some found }) value
  else if name = utf8 "encoded_sha256" then
    readOnce journal.encodedSha256 scanString (fun found => { journal with encodedSha256 := some found }) value
  else if name = utf8 "part_bytes" then
    readOnce journal.partBytes scanU64 (fun found => { journal with partBytes := some found }) value
  else if name = utf8 "etags" then
    readOnce journal.etags readTags (fun found => { journal with etags := some found }) value
  else none

/-- A journal from an array of its members, behind the opening bracket. -/
def readJournalArray (text : List UInt8) : Option (MultipartJournal × List UInt8) := do
  let (schema, behind) ← scanString (skipBlank text)
  let (intentId, behind) ← scanString (← expect 0x2C behind)
  let (uploadId, behind) ← scanString (← expect 0x2C behind)
  let (encodedBytes, behind) ← scanU64 (← expect 0x2C behind)
  let (encodedSha256, behind) ← scanString (← expect 0x2C behind)
  let (partBytes, behind) ← scanU64 (← expect 0x2C behind)
  let (etags, behind) ← readTags (← expect 0x2C behind)
  some (⟨schema, intentId, uploadId, encodedBytes, encodedSha256, partBytes, etags⟩, ← expect 0x5D behind)

/-- `serde_json::from_slice::<MultipartJournal>`. -/
def MultipartJournal.fromSlice (text : List UInt8) : Option MultipartJournal :=
  match skipBlank text with
  | [] => none
  | byte :: rest =>
      if byte = 0x7B then do
        let (journal, behind) ← scanObject readJournalMember text.length .empty rest
        if skipBlank behind = [] then journal.complete else none
      else if byte = 0x5B then do
        let (journal, behind) ← readJournalArray rest
        if behind = [] then some journal else none
      else none

/-! ### What was stored is read back -/

theorem readPartNumber_decimal {number : Nat} (h : number < 2 ^ 32) : readPartNumber (decimal number) = some number := by
  have hscan := Json.scanNatural_decimal number Json.stops_nil
  rw [List.append_nil] at hscan
  rw [readPartNumber, hscan]
  exact if_pos h

theorem reads_tags {parts : List (Nat × Text)} (h : ∀ part ∈ parts, part.1 < 2 ^ 32 ∧ Utf8.valid part.2 = true)
    (etags : PartTags) :
    Reads readTag etags (parts.map tagMember) (parts.foldl (fun etags part => etags.insert part.1 part.2) etags) := by
  induction parts generalizing etags with
  | nil => exact .nil etags
  | cons part parts ih =>
      obtain ⟨hnumber, hetag⟩ := h part List.mem_cons_self
      refine .cons (Utf8.valid_ascii (Json.decimal_ascii _)) (StrictJson.skipBlank_quote _) ?_
        (ih (fun other hother => h other (List.mem_cons_of_mem _ hother)) _)
      intro byte after _
      rw [readTag, readPartNumber_decimal hnumber, StrictJson.scanString_quote hetag]
      rfl

theorem foldl_insert_toList (etags : PartTags) :
    etags.toList.foldl (fun etags part => etags.insert part.1 part.2) ∅ = etags := by
  rw [← Std.ExtTreeMap.ofList_eq_foldl]
  apply Std.ExtTreeMap.ext_getElem?
  intro number
  cases hetag : etags[number]? with
  | none =>
      apply Std.ExtTreeMap.getElem?_ofList_of_contains_eq_false
      rw [List.contains_eq_mem, decide_eq_false_iff_not]
      intro hmem
      obtain ⟨⟨found, etag⟩, hfound, rfl⟩ := List.mem_map.mp hmem
      rw [Std.ExtTreeMap.mem_toList_iff_getElem?_eq_some, hetag] at hfound
      cases hfound
  | some etag =>
      exact Std.ExtTreeMap.getElem?_ofList_of_mem (Nat.compare_eq_eq.mpr rfl) Std.ExtTreeMap.distinct_keys_toList
        (Std.ExtTreeMap.mem_toList_iff_getElem?_eq_some.mpr hetag)

theorem readTags_tagsText {etags : PartTags} (h : ∀ part ∈ etags.toList, part.1 < 2 ^ 32 ∧ Utf8.valid part.2 = true)
    (after : List UInt8) : readTags (tagsText etags ++ after) = some (etags, after) := by
  have hreads := reads_tags h ∅
  rw [foldl_insert_toList] at hreads
  have hfuel : (etags.toList.map tagMember).length ≤ (objectText (etags.toList.map tagMember) ++ after).length := by
    rw [List.length_append]
    exact (StrictJson.length_le_objectText _).trans (Nat.le_add_right _ _)
  rw [readTags.eq_def, tagsText, List.cons_append]
  dsimp only
  rw [if_pos rfl]
  exact StrictJson.scanObject_of_reads hreads hfuel after

theorem readOnce_none {α : Type} {scan : List UInt8 → Option (α × List UInt8)} {store : α → PartialJournal}
    {value behind : List UInt8} {found : α} (h : scan (value ++ behind) = some (found, behind)) :
    readOnce none scan store (value ++ behind) = some (store found, behind) := by
  rw [readOnce, if_neg (by simp), h]
  rfl

theorem stops_of_member {byte : UInt8} (h : byte = 0x2C ∨ byte = 0x7D) (after : List UInt8) : Json.Stops (byte :: after) := by
  rcases h with rfl | rfl
  · exact ⟨rfl, rfl⟩
  · exact ⟨rfl, rfl⟩

theorem reads_journal {journal : MultipartJournal} (h : journal.wellTyped = true) :
    Reads readJournalMember .empty journal.members
      ⟨some journal.schema, some journal.intentId, some journal.uploadId, some journal.encodedBytes,
        some journal.encodedSha256, some journal.partBytes, some journal.etags⟩ := by
  simp only [MultipartJournal.wellTyped, Bool.and_eq_true, decide_eq_true_eq, List.all_eq_true] at h
  obtain ⟨⟨⟨⟨⟨⟨hschema, hintentId⟩, huploadId⟩, hsha256⟩, hbytes⟩, hpartBytes⟩, hetags⟩ := h
  have hvalid : ∀ name ∈ [utf8 "schema", utf8 "intent_id", utf8 "upload_id", utf8 "encoded_bytes", utf8 "encoded_sha256",
      utf8 "part_bytes", utf8 "etags"], Utf8.valid name = true := by decide
  simp only [List.forall_mem_cons] at hvalid
  obtain ⟨hvalid₁, hvalid₂, hvalid₃, hvalid₄, hvalid₅, hvalid₆, hvalid₇, _⟩ := hvalid
  have hnames : [utf8 "schema", utf8 "intent_id", utf8 "upload_id", utf8 "encoded_bytes", utf8 "encoded_sha256",
      utf8 "part_bytes", utf8 "etags"].Pairwise fun left right => right ≠ left := by decide
  simp only [List.pairwise_cons, List.forall_mem_cons] at hnames
  obtain ⟨hfirst, hsecond, hthird, hfourth, hfifth, hsixth, _⟩ := hnames
  apply Reads.cons hvalid₁ (StrictJson.skipBlank_quote _)
  · intro byte after hbyte
    rw [readJournalMember, if_pos rfl]
    exact readOnce_none (StrictJson.scanString_quote hschema _)
  apply Reads.cons hvalid₂ (StrictJson.skipBlank_quote _)
  · intro byte after hbyte
    rw [readJournalMember, if_neg hfirst.1, if_pos rfl]
    exact readOnce_none (StrictJson.scanString_quote hintentId _)
  apply Reads.cons hvalid₃ (StrictJson.skipBlank_quote _)
  · intro byte after hbyte
    rw [readJournalMember, if_neg hfirst.2.1, if_neg hsecond.1, if_pos rfl]
    exact readOnce_none (StrictJson.scanString_quote huploadId _)
  apply Reads.cons hvalid₄ (Json.skipBlank_decimal _)
  · intro byte after hbyte
    rw [readJournalMember, if_neg hfirst.2.2.1, if_neg hsecond.2.1, if_neg hthird.1, if_pos rfl]
    exact readOnce_none (StrictJson.scanU64_decimal hbytes (stops_of_member hbyte after))
  apply Reads.cons hvalid₅ (StrictJson.skipBlank_quote _)
  · intro byte after hbyte
    rw [readJournalMember, if_neg hfirst.2.2.2.1, if_neg hsecond.2.2.1, if_neg hthird.2.1, if_neg hfourth.1, if_pos rfl]
    exact readOnce_none (StrictJson.scanString_quote hsha256 _)
  apply Reads.cons hvalid₆ (Json.skipBlank_decimal _)
  · intro byte after hbyte
    rw [readJournalMember, if_neg hfirst.2.2.2.2.1, if_neg hsecond.2.2.2.1, if_neg hthird.2.2.1, if_neg hfourth.2.1,
      if_neg hfifth.1, if_pos rfl]
    exact readOnce_none (StrictJson.scanU64_decimal hpartBytes (stops_of_member hbyte after))
  apply Reads.cons hvalid₇ (fun _ => rfl)
  · intro byte after hbyte
    rw [readJournalMember, if_neg hfirst.2.2.2.2.2.1, if_neg hsecond.2.2.2.2.1, if_neg hthird.2.2.2.1,
      if_neg hfourth.2.2.1, if_neg hfifth.2.1, if_neg hsixth.1, if_pos rfl]
    exact readOnce_none (readTags_tagsText hetags _)
  exact .nil _

theorem fromSlice_toVec {journal : MultipartJournal} {text : List UInt8} (h : journal.toVec = some text) :
    MultipartJournal.fromSlice text = some journal := by
  rw [MultipartJournal.toVec] at h
  split_ifs at h with htyped
  rw [Option.some.injEq] at h
  subst h
  have hfuel : journal.members.length ≤ (0x7B :: objectText journal.members).length :=
    (StrictJson.length_le_objectText _).trans (Nat.le_succ _)
  have hscan := StrictJson.scanObject_of_reads (reads_journal htyped) hfuel []
  rw [List.append_nil] at hscan
  have hblank : skipBlank (0x7B :: objectText journal.members) = 0x7B :: objectText journal.members := rfl
  rw [MultipartJournal.fromSlice, hblank]
  dsimp only
  rw [if_pos rfl, hscan]
  rfl

end Skydriver.Multipart
