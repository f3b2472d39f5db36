import Skydriver.Control.Listing
import Skydriver.Control.Provenance

/-!
# Following the pages of a directory

The pages of an unchanging directory are consecutive pieces of its entries, as long as every cursor between them is read
back.  A cursor names an entry in JSON, where one control character takes six bytes, and a cursor of more than 1024
characters is refused: the entries behind a long name of control characters are out of reach.
-/

namespace Skydriver

/-! ### Reading a cursor back -/

/-- A cursor that names a directory, a revision and an entry. -/
structure DirectoryCursor.Valid (cursor : DirectoryCursor) : Prop where
  directoryId : validIdentifier cursor.directoryId = true
  revision : 0 < cursor.directoryRevision ∧ cursor.directoryRevision < 2 ^ 64
  afterName : Utf8.valid cursor.afterName = true ∧ isStoredName cursor.afterName = true

theorem length_quote (bytes : List UInt8) :
    (StrictJson.quote bytes).length = (bytes.flatMap StrictJson.escape).length + 2 := by
  rw [StrictJson.quote, List.length_cons, List.length_append, List.length_singleton]

theorem validIdentifier_bounds {value : Text} (h : validIdentifier value = true) :
    value.length = 32 ∧ ∀ byte ∈ value, 0x30 ≤ byte.toNat ∧ byte.toNat < 0x80 ∧ byte.toNat ≠ 0x5C := by
  simp only [validIdentifier, Bool.and_eq_true, beq_iff_eq, List.all_eq_true, Bool.or_eq_true, Json.isDigit,
    decide_eq_true_eq, UInt8.le_iff_toNat_le] at h
  refine ⟨h.1.1, ?_⟩
  intro byte hbyte
  rcases h.2 byte hbyte with ⟨hlow, hhigh⟩ | ⟨hlow, hhigh⟩
  · have hlow' : 48 ≤ byte.toNat := hlow
    have hhigh' : byte.toNat ≤ 57 := hhigh
    omega
  · have hlow' : 97 ≤ byte.toNat := hlow
    have hhigh' : byte.toNat ≤ 102 := hhigh
    omega

theorem flatMap_escape_identifier {value : Text} (h : validIdentifier value = true) :
    value.flatMap StrictJson.escape = value := by
  have hplain : ∀ byte ∈ value, StrictJson.escape byte = [byte] := by
    intro byte hbyte
    obtain ⟨hlow, _, hslash⟩ := (validIdentifier_bounds h).2 byte hbyte
    have hne : ∀ other : UInt8, other.toNat < 0x30 ∨ other.toNat = 0x5C → byte ≠ other := by
      rintro other hother rfl
      omega
    rw [StrictJson.escape, if_neg (not_or.mpr ⟨hne 0x22 (by decide), hne 0x5C (by decide)⟩),
      if_neg (hne 0x08 (by decide)), if_neg (hne 0x09 (by decide)), if_neg (hne 0x0A (by decide)),
      if_neg (hne 0x0C (by decide)), if_neg (hne 0x0D (by decide)), if_neg]
    intro hcontrol
    have hbound : byte.toNat < 0x20 := UInt8.lt_iff_toNat_lt.mp hcontrol
    omega
  rw [List.flatMap_congr hplain, List.flatMap_singleton']

/-- The JSON text is 89 bytes besides the digits of the revision and the escaped name. -/
theorem DirectoryCursor.length_json {cursor : DirectoryCursor} (h : validIdentifier cursor.directoryId = true) :
    cursor.json.length = 89 + (Json.decimal cursor.directoryRevision).length +
      (cursor.afterName.flatMap StrictJson.escape).length := by
  have hid : (StrictJson.quote cursor.directoryId).length = 34 := by
    rw [length_quote, flatMap_escape_identifier h, (validIdentifier_bounds h).1]
  have hfirst : (StrictJson.quote (utf8 "directory_id")).length = 14 := by decide
  have hsecond : (StrictJson.quote (utf8 "directory_revision")).length = 20 := by decide
  have hthird : (StrictJson.quote (utf8 "after_name")).length = 12 := by decide
  simp only [json, List.length_cons, List.length_append, List.length_nil, hid, hfirst, hsecond, hthird,
    length_quote cursor.afterName]
  omega

section Cursors

variable (ignore : List UInt8 → Option (List UInt8)) {cursor : DirectoryCursor}

theorem readCursor_json (h : cursor.Valid) : readCursor ignore cursor.json = some cursor := by
  obtain ⟨directoryId, directoryRevision, afterName⟩ := cursor
  have hid : Utf8.valid directoryId = true :=
    Utf8.valid_ascii fun byte hbyte => UInt8.lt_iff_toNat_lt.mpr ((validIdentifier_bounds h.directoryId).2 byte hbyte).2.1
  obtain ⟨fuel, hfuel⟩ : ∃ fuel, (DirectoryCursor.mk directoryId directoryRevision afterName).json.length =
      fuel + 1 + 1 + 1 := by
    refine ⟨(DirectoryCursor.mk directoryId directoryRevision afterName).json.length - 3, ?_⟩
    rw [DirectoryCursor.length_json h.directoryId]
    omega
  have hnames : utf8 "directory_revision" ≠ utf8 "directory_id" ∧ utf8 "after_name" ≠ utf8 "directory_id" ∧
      utf8 "after_name" ≠ utf8 "directory_revision" := by decide
  have hvalid : Utf8.valid (utf8 "directory_id") = true ∧ Utf8.valid (utf8 "directory_revision") = true ∧
      Utf8.valid (utf8 "after_name") = true := by decide
  have hmember : ∀ rest, readCursorMember ignore (utf8 "directory_id") ⟨none, none, none⟩
      (StrictJson.quote directoryId ++ rest) = some (⟨some directoryId, none, none⟩, rest) := by
    intro rest
    rw [readCursorMember, if_pos rfl, if_neg (by decide), StrictJson.scanString_quote hid]
    rfl
  have hmember' : ∀ rest, readCursorMember ignore (utf8 "directory_revision") ⟨some directoryId, none, none⟩
      (Json.decimal directoryRevision ++ 0x2C :: rest) =
        some (⟨some directoryId, some directoryRevision, none⟩, 0x2C :: rest) := by
    intro rest
    rw [readCursorMember, if_neg hnames.1, if_pos rfl,
      if_neg (show ¬(none : Option Nat).isSome = true from Bool.false_ne_true), StrictJson.scanU64_decimal h.revision.2 ⟨rfl, rfl⟩]
    rfl
  have hmember'' : ∀ rest, readCursorMember ignore (utf8 "after_name")
      ⟨some directoryId, some directoryRevision, none⟩ (StrictJson.quote afterName ++ rest) =
        some (⟨some directoryId, some directoryRevision, some afterName⟩, rest) := by
    intro rest
    rw [readCursorMember, if_neg hnames.2.1, if_neg hnames.2.2, if_pos rfl,
      if_neg (show ¬(none : Option Text).isSome = true from Bool.false_ne_true),
      StrictJson.scanString_quote h.afterName.1]
    rfl
  have hblank : Json.skipBlank (DirectoryCursor.mk directoryId directoryRevision afterName).json =
      (DirectoryCursor.mk directoryId directoryRevision afterName).json := rfl
  rw [readCursor, hblank, hfuel, DirectoryCursor.json]
  dsimp only
  rw [if_pos rfl, StrictJson.scanObject_quote, StrictJson.scanMembers_member hvalid.1 rfl (hmember _) rfl, if_pos rfl,
    StrictJson.scanMembers_member hvalid.2.1 (Json.skipBlank_decimal _ _) (hmember' _) rfl, if_pos rfl,
    StrictJson.scanMembers_member hvalid.2.2 rfl (hmember'' _) rfl, if_neg (by decide), if_pos rfl]
  rfl

/-- A cursor is read back if and only if its text is not too long. -/
theorem decodeCursor_encodeCursor (h : cursor.Valid) :
    decodeCursor ignore (encodeCursor cursor) =
      if (Json.decimal cursor.directoryRevision).length + (cursor.afterName.flatMap StrictJson.escape).length ≤ 679 then
        some cursor
      else none := by
  have hlength := Base64Url.length_encode cursor.json
  rw [DirectoryCursor.length_json h.directoryId] at hlength
  have hfilled : (encodeCursor cursor).isEmpty = false := by
    rw [List.isEmpty_eq_false_iff, ne_eq, ← List.length_eq_zero_iff, encodeCursor]
    omega
  have hbound : (encodeCursor cursor).length > maximumCursorBytes ↔
      ¬(Json.decimal cursor.directoryRevision).length + (cursor.afterName.flatMap StrictJson.escape).length ≤ 679 := by
    rw [encodeCursor, hlength, maximumCursorBytes]
    omega
  rw [decodeCursor, hfilled]
  by_cases hfits : (Json.decimal cursor.directoryRevision).length +
      (cursor.afterName.flatMap StrictJson.escape).length ≤ 679
  · have hshort : ¬(false = true ∨ (encodeCursor cursor).length > maximumCursorBytes) :=
      not_or.mpr ⟨Bool.false_ne_true, fun hlong => hbound.mp hlong hfits⟩
    rw [if_pos hfits, if_neg hshort, encodeCursor, Base64Url.decode_encode, Option.bind_eq_bind, Option.bind_some,
      readCursor_json ignore h, Option.bind_eq_bind, Option.bind_some, h.directoryId, h.afterName.2, if_neg]
    simp [Nat.pos_iff_ne_zero.mp h.revision.1]
  · rw [if_neg hfits, if_pos (.inr (hbound.mpr hfits))]

end Cursors

/-! ### The entries of a directory -/

section Entries

variable (tree : Tree) (directoryId : Identity)

theorem Tree.nodup_names (test : Text → Bool) :
    (((tree.entries.entries.filter fun row => row.1.1 == directoryId && test row.1.2).map fun row =>
      (row.1.2, row.2)).map Prod.fst).Nodup := by
  have hkeys : (tree.entries.entries.map Sigma.fst).Nodup := tree.entries.nodupKeys
  rw [List.map_map]
  apply List.Nodup.map_on
  · intro left hleft right hright hname
    have hleft_directory := (Bool.and_eq_true_iff.mp (List.mem_filter.mp hleft).2).1
    have hright_directory := (Bool.and_eq_true_iff.mp (List.mem_filter.mp hright).2).1
    rw [beq_iff_eq] at hleft_directory hright_directory
    apply List.inj_on_of_nodup_map hkeys (List.mem_filter.mp hleft).1 (List.mem_filter.mp hright).1
    exact Prod.ext (hleft_directory.trans hright_directory.symm) hname
  · exact (List.Nodup.of_map _ hkeys).filter _

theorem Tree.namedEntries_eq : tree.namedEntries directoryId = KeyOrder.sortByKey Prod.fst
    ((tree.entries.entries.filter fun row => row.1.1 == directoryId && true).map fun row => (row.1.2, row.2)) := by
  simp only [namedEntries, Bool.and_true]

theorem Tree.namedEntries_ordered : KeyOrder.StrictlyOrdered Prod.fst (tree.namedEntries directoryId) := by
  rw [namedEntries_eq]
  exact KeyOrder.sortByKey_strictlyOrdered (tree.nodup_names directoryId fun _ => true)

theorem Tree.mem_namedEntries {name : Text} {row : EntryRow} :
    (name, row) ∈ tree.namedEntries directoryId ↔ tree.entries.lookup (directoryId, name) = some row := by
  rw [namedEntries, (KeyOrder.sortByKey_perm _ _).mem_iff, List.mem_map, ← Table.mem_entries_iff]
  constructor
  · intro h
    obtain ⟨⟨⟨found, name'⟩, row'⟩, hmem, heq⟩ := h
    cases heq
    obtain ⟨hmem, hdirectory⟩ := List.mem_filter.mp hmem
    rw [beq_iff_eq] at hdirectory
    exact hdirectory ▸ hmem
  · intro hmem
    exact ⟨_, List.mem_filter.mpr ⟨hmem, beq_self_eq_true directoryId⟩, rfl⟩

theorem Tree.entriesAfter_eq_filter (after : Text) :
    tree.entriesAfter directoryId after = (tree.namedEntries directoryId).filter fun entry => after < entry.1 := by
  have hordered : KeyOrder.StrictlyOrdered Prod.fst
      ((tree.namedEntries directoryId).filter fun entry => after < entry.1) :=
    (tree.namedEntries_ordered directoryId).filter _
  apply KeyOrder.sortByKey_of_perm hordered
  have hrows : ((tree.entries.entries.filter fun row => row.1.1 == directoryId && after < row.1.2).map fun row =>
      (row.1.2, row.2)) = ((tree.entries.entries.filter fun row => row.1.1 == directoryId).map fun row =>
        (row.1.2, row.2)).filter fun entry => after < entry.1 := by
    rw [List.filter_map, List.filter_filter]
    congr 2
    funext row
    exact Bool.and_comm _ _
  rw [hrows]
  exact ((KeyOrder.sortByKey_perm _ _).symm.filter _)

variable {tree directoryId}

theorem Tree.entriesAfter_of_split {front back : List (Text × EntryRow)} {entry : Text × EntryRow}
    (h : tree.namedEntries directoryId = front ++ entry :: back) : tree.entriesAfter directoryId entry.1 = back := by
  have hordered := tree.namedEntries_ordered directoryId
  rw [h, KeyOrder.StrictlyOrdered, List.pairwise_append, List.pairwise_cons] at hordered
  obtain ⟨_, ⟨hback, _⟩, hfront⟩ := hordered
  have hself : ¬entry.1 < entry.1 := List.lt_irrefl _
  have hbefore : front.filter (fun other => decide (entry.1 < other.1)) = [] := by
    rw [List.filter_eq_nil_iff]
    intro other hother hlt
    exact hself (List.lt_trans (of_decide_eq_true hlt) (hfront other hother entry List.mem_cons_self))
  have hbehind : back.filter (fun other => decide (entry.1 < other.1)) = back := by
    rw [List.filter_eq_self]
    intro other hother
    exact decide_eq_true (hback other hother)
  rw [entriesAfter_eq_filter, h, List.filter_append, hbefore, List.nil_append, List.filter_cons, if_neg, hbehind]
  simp

theorem Tree.entriesAfter_nil (hnames : ∀ entry ∈ tree.namedEntries directoryId, entry.1 ≠ []) :
    tree.entriesAfter directoryId [] = tree.namedEntries directoryId := by
  rw [entriesAfter_eq_filter, List.filter_eq_self]
  intro entry hentry
  cases hname : entry.1 with
  | nil => exact absurd hname (hnames entry hentry)
  | cons byte rest => exact decide_eq_true (List.nil_lt_cons byte rest)

end Entries

/-! ### Pages -/

theorem directoryPage_of_le {directoryId : Identity} {directory : DirectoryIdentity} {limit : Nat}
    {entries : List (Text × EntryRow)} (h : entries.length ≤ limit) :
    directoryPage directoryId directory limit (entries.take (limit + 1)) = ⟨directory, entries, none⟩ := by
  rw [List.take_of_length_le (h.trans (Nat.le_succ limit))]
  simp only [directoryPage, if_neg (Nat.not_lt.mpr h)]

theorem directoryPage_of_lt {directoryId : Identity} {directory : DirectoryIdentity} {front back : List (Text × EntryRow)}
    {entry : Text × EntryRow} (h : back ≠ []) :
    directoryPage directoryId directory (front.length + 1) ((front ++ entry :: back).take (front.length + 1 + 1)) =
      ⟨directory, front ++ [entry],
        some (encodeCursor ⟨identifierText directoryId, directory.row.revision, entry.1⟩)⟩ := by
  obtain ⟨next, rest, rfl⟩ := List.exists_cons_of_ne_nil h
  have htake : (front ++ entry :: next :: rest).take (front.length + 1 + 1) = (front ++ [entry]) ++ [next] := by
    rw [Nat.add_assoc, List.take_length_add_append]
    simp
  have hlength : front.length + 1 < ((front ++ [entry]) ++ [next]).length := by simp
  rw [htake]
  simp only [directoryPage, if_pos hlength, List.dropLast_concat, List.getLast?_concat, Option.map_some]

/-- What a request is answered while nothing changes. -/
def listOn (ignore : List UInt8 → Option (List UInt8)) (token : AuthenticatedToken) (directoryId : Identity)
    (query : List (Text × Text)) (db : Database) : Option ListResponse :=
  (list ignore token directoryId query : Program Database Mutation Bool Effect Answer ListResponse).readOn db

def pageQuery (limit : Nat) (cursor : Option Text) : List (Text × Text) :=
  (utf8 "limit", Json.decimal limit) :: (cursor.map fun text => (utf8 "cursor", text)).toList

theorem parseU64_decimal {value : Nat} (h : value < 2 ^ 64) : parseU64 (Json.decimal value) = some value := by
  obtain ⟨byte, digits, heq, hdigit⟩ := Json.decimal_cons value
  have hplus : (Json.decimal value).head? ≠ some 0x2B := by
    rw [heq, List.head?_cons, ne_eq, Option.some.injEq]
    rintro rfl
    exact absurd hdigit (by decide)
  have hdigits : ¬((Json.decimal value).isEmpty = true ∨ (!(Json.decimal value).all Json.isDigit) = true) := by
    rw [List.all_eq_true.mpr (Json.isDigit_decimal value), heq]
    simp
  simp only [parseU64, if_neg hplus, if_neg hdigits, Json.decimalValue_decimal, Option.filter_some,
    if_pos (decide_eq_true h)]

variable (ignore : List UInt8 → Option (List UInt8))

theorem queryOptions_pageQuery {limit : Nat} (hlimit : 1 ≤ limit ∧ limit ≤ maximumPageSize) (cursor : Option Text) :
    queryOptions ignore (pageQuery limit cursor) none none =
      match cursor with
      | none => some (limit, none)
      | some text => (decodeCursor ignore text).map fun found => (limit, some found) := by
  have hbound : limit < 2 ^ 64 := hlimit.2.trans_lt (by decide)
  have hnames : utf8 "cursor" ≠ utf8 "limit" := by decide
  rw [pageQuery, queryOptions, if_pos ⟨rfl, rfl⟩, parseU64_decimal hbound]
  dsimp only
  rw [if_pos hlimit]
  cases cursor with
  | none => rfl
  | some text =>
      rw [Option.map_some, Option.toList_some, queryOptions, if_neg (fun h => hnames h.1), if_pos ⟨rfl, rfl⟩]
      dsimp only
      cases decodeCursor ignore text with
      | none => rfl
      | some found => rfl

/-- A directory that a token may list: active, with a revision that fits its column, and with stored names in UTF-8. -/
structure Listed (db : Database) (token : AuthenticatedToken) (directoryId : Identity) (directory : DirectoryIdentity) :
    Prop where
  identifier : directoryId ≠ .zero 16
  authorized : db.authorized token directoryId .directoryList = true
  loaded : loadListedDirectory db directoryId = some directory
  revision : 0 < directory.row.revision ∧ directory.row.revision < 2 ^ 63
  names : ∀ entry ∈ db.tree.namedEntries directoryId, Utf8.valid entry.1 = true ∧ isStoredName entry.1 = true

def cursorAfter (directoryId : Identity) (directory : DirectoryIdentity) (entry : Text × EntryRow) : DirectoryCursor :=
  ⟨identifierText directoryId, directory.row.revision, entry.1⟩

/-- The text of the cursor behind an entry stays within its bound. -/
def CursorFits (directory : DirectoryIdentity) (entry : Text × EntryRow) : Prop :=
  (Json.decimal directory.row.revision).length + (entry.1.flatMap StrictJson.escape).length ≤ 679

theorem hexEncode_digits (bytes : List UInt8) :
    ∀ byte ∈ hexEncode bytes, (Json.isDigit byte || (0x61 ≤ byte && byte ≤ 0x66)) = true := by
  have hdigit : ∀ digit < 16, (Json.isDigit (hexDigit digit) || (0x61 ≤ hexDigit digit && hexDigit digit ≤ 0x66)) =
      true := by decide
  induction bytes with
  | nil => simp [hexEncode]
  | cons first rest ih =>
      have hfirst := first.toNat_lt
      intro byte hbyte
      rw [hexEncode, List.mem_cons, List.mem_cons] at hbyte
      rcases hbyte with rfl | rfl | hbyte
      · exact hdigit _ (by omega)
      · exact hdigit _ (by omega)
      · exact ih byte hbyte

theorem validIdentifier_identifierText {id : Identity} (h : id ≠ .zero 16) : validIdentifier (identifierText id) = true := by
  have hlength : (identifierText id).length = 32 := by rw [identifierText, hexEncode_length, id.length_val]
  have hzero : identifierText id ≠ List.replicate 32 0x30 := by
    intro heq
    have hsame : hexEncode id.val = hexEncode (Bytes.zero 16).val := heq.trans (by decide)
    exact h (Bytes.ext (hexEncode_injective hsame))
  have hdigits : (identifierText id).all (fun byte => Json.isDigit byte || (0x61 ≤ byte && byte ≤ 0x66)) = true :=
    List.all_eq_true.mpr (hexEncode_digits id.val)
  rw [validIdentifier, hlength, bne_iff_ne.mpr hzero, hdigits]
  rfl

section Listed

variable {db : Database} {token : AuthenticatedToken} {directoryId : Identity} {directory : DirectoryIdentity}

theorem Listed.valid_cursorAfter (h : Listed db token directoryId directory) {entry : Text × EntryRow}
    (hentry : entry ∈ db.tree.namedEntries directoryId) : (cursorAfter directoryId directory entry).Valid where
  directoryId := validIdentifier_identifierText h.identifier
  revision := ⟨h.revision.1, h.revision.2.trans (by decide)⟩
  afterName := h.names entry hentry

/-- One page on an unchanging directory, from the cursor that the query carries on. -/
theorem Listed.readOn_list (h : Listed db token directoryId directory) {query : List (Text × Text)}
    {limit : Nat} {cursor : Option DirectoryCursor} (hquery : queryOptions ignore query none none = some (limit, cursor))
    (hcursor : ∀ position, cursor = some position → position.directoryId = identifierText directoryId ∧
      position.directoryRevision = directory.row.revision) :
    listOn ignore token directoryId query db =
      some (.page (directoryPage directoryId directory limit
        ((db.tree.entriesAfter directoryId (cursor.elim [] DirectoryCursor.afterName)).take (limit + 1)))) := by
  have hrevision : loadDirectoryRevision db directoryId = some directory.row.revision := by
    have hloaded := h.loaded
    rw [loadListedDirectory, Option.map_eq_some_iff] at hloaded
    obtain ⟨row, hrow, rfl⟩ := hloaded
    rw [loadDirectoryRevision, hrow, Option.map_some]
  have hpinned : (cursor.any fun position => position.directoryId != identifierText directoryId ||
      position.directoryRevision != directory.row.revision) = false := by
    cases cursor with
    | none => rfl
    | some position =>
        obtain ⟨hid, hposition⟩ := hcursor position rfl
        rw [Option.any_some, hid, hposition, bne_self_eq_false, bne_self_eq_false, Bool.or_self]
  rw [listOn, list, if_neg h.identifier, hquery]
  simp only [Program.readOn_read, h.authorized, h.loaded, hpinned, hrevision, Bool.not_true, Bool.false_eq_true,
    if_false, ne_eq, not_true_eq_false, Program.readOn_done]

theorem Listed.page_of_readOn (h : Listed db token directoryId directory) {query : List (Text × Text)}
    {page : DirectoryPage}
    (hpage : listOn ignore token directoryId query db = some (.page page)) :
    ∃ limit after, page = directoryPage directoryId directory limit
      ((db.tree.entriesAfter directoryId after).take (limit + 1)) := by
  rw [listOn, list, if_neg h.identifier] at hpage
  cases hquery : queryOptions ignore query none none with
  | none =>
      rw [hquery] at hpage
      cases hpage
  | some options =>
      rw [hquery] at hpage
      simp only [Program.readOn_read, h.authorized, h.loaded, Bool.not_true, Bool.false_eq_true, if_false] at hpage
      split at hpage
      · cases hpage
      · rw [Program.readOn_read] at hpage
        rw [Program.readOn_read] at hpage
        split at hpage
        · cases hpage
        · split at hpage
          · cases hpage
          · cases hpage
            exact ⟨_, _, rfl⟩

/-- The last entry of a page with another one behind it is not the last of the directory. -/
theorem mem_dropLast_of_lt {entries : List (Text × EntryRow)} (hordered : KeyOrder.StrictlyOrdered Prod.fst entries)
    {entry other : Text × EntryRow} (hentry : entry ∈ entries) (hother : other ∈ entries) (hlt : entry.1 < other.1) :
    entry ∈ entries.dropLast := by
  have hsplit := List.dropLast_append_getLast (List.ne_nil_of_mem hentry)
  rw [← hsplit, KeyOrder.StrictlyOrdered, List.pairwise_append] at hordered
  rw [← hsplit, List.mem_append, List.mem_singleton] at hentry hother
  rcases hentry with hfront | hlast
  · exact hfront
  · rcases hother with hother | hother
    · have hbefore := hordered.2.2 other hother _ (List.mem_singleton_self _)
      rw [← hlast] at hbefore
      exact absurd (List.lt_trans hlt hbefore) (List.lt_irrefl _)
    · rw [hother.trans hlast.symm] at hlt
      exact absurd hlt (List.lt_irrefl _)

theorem mem_dropLast_of_page {limit : Nat} {after : Text} {page : DirectoryPage} (hpage : page = directoryPage directoryId directory limit
      ((db.tree.entriesAfter directoryId after).take (limit + 1)))
    (hmore : page.nextCursor.isSome) {entry : Text × EntryRow} (hlast : page.entries.getLast? = some entry) :
    entry ∈ (db.tree.namedEntries directoryId).dropLast := by
  have hordered := db.tree.namedEntries_ordered directoryId
  rw [Tree.entriesAfter_eq_filter] at hpage
  generalize hfetched : (((db.tree.namedEntries directoryId).filter fun entry => after < entry.1).take (limit + 1)) =
    fetched at hpage
  have hsublist : fetched.Sublist (db.tree.namedEntries directoryId) := by
    rw [← hfetched]
    exact (List.take_sublist _ _).trans List.filter_sublist
  have hlong : limit < fetched.length := by
    by_contra hshort
    simp [hpage, directoryPage, hshort] at hmore
  rw [hpage] at hlast
  simp only [directoryPage, if_pos hlong] at hlast
  have hfilled : fetched ≠ [] := List.ne_nil_of_length_pos (by omega)
  have hsplit := List.dropLast_append_getLast hfilled
  have hentry : entry ∈ fetched.dropLast := List.mem_of_getLast? hlast
  have hpairs : KeyOrder.StrictlyOrdered Prod.fst fetched := hordered.sublist hsublist
  rw [← hsplit, KeyOrder.StrictlyOrdered, List.pairwise_append] at hpairs
  apply mem_dropLast_of_lt hordered (hsublist.subset (List.mem_of_mem_dropLast hentry))
    (hsublist.subset (List.getLast_mem hfilled))
  exact hpairs.2.2 entry hentry _ (List.mem_singleton_self _)

/-- The text of a cursor, or none, stands in front of the rest of the listing. -/
inductive Stands (db : Database) (directoryId : Identity) (directory : DirectoryIdentity) :
    Option Text → List (Text × EntryRow) → Prop where
  | start : Stands db directoryId directory none (db.tree.namedEntries directoryId)
  | behind {front back : List (Text × EntryRow)} {entry : Text × EntryRow}
      (h : db.tree.namedEntries directoryId = front ++ entry :: back) (hfits : CursorFits directory entry) :
      Stands db directoryId directory (some (encodeCursor (cursorAfter directoryId directory entry))) back

theorem Stands.suffix {cursor : Option Text} {rest : List (Text × EntryRow)} (h : Stands db directoryId directory cursor rest) :
    ∃ front, db.tree.namedEntries directoryId = front ++ rest := by
  cases h with
  | start => exact ⟨[], rfl⟩
  | @behind front back entry h _ => exact ⟨front ++ [entry], by rw [h]; simp⟩

theorem Listed.readOn_of_stands (h : Listed db token directoryId directory) {limit : Nat}
    (hlimit : 1 ≤ limit ∧ limit ≤ maximumPageSize) {cursor : Option Text} {rest : List (Text × EntryRow)}
    (hstands : Stands db directoryId directory cursor rest) :
    listOn ignore token directoryId (pageQuery limit cursor) db =
      some (.page (directoryPage directoryId directory limit (rest.take (limit + 1)))) := by
  have hquery := queryOptions_pageQuery ignore hlimit cursor
  cases hstands with
  | start =>
      have hnames : ∀ entry ∈ db.tree.namedEntries directoryId, entry.1 ≠ [] := by
        intro entry hentry hempty
        have hstored := (h.names entry hentry).2
        rw [hempty] at hstored
        cases hstored
      rw [h.readOn_list ignore hquery (fun _ hposition => by cases hposition), Option.elim_none, Tree.entriesAfter_nil hnames]
  | @behind front back entry hsplit hfits =>
      have hentry : entry ∈ db.tree.namedEntries directoryId := by rw [hsplit]; simp
      have hdecode := (decodeCursor_encodeCursor ignore (h.valid_cursorAfter hentry)).trans (if_pos hfits)
      dsimp only at hquery
      rw [hdecode, Option.map_some] at hquery
      rw [h.readOn_list ignore hquery (fun _ hposition => by cases hposition; exact ⟨rfl, rfl⟩), Option.elim_some, cursorAfter,
        Tree.entriesAfter_of_split hsplit]

theorem Listed.readOn_of_not_fits (h : Listed db token directoryId directory) {limit : Nat}
    (hlimit : 1 ≤ limit ∧ limit ≤ maximumPageSize) {entry : Text × EntryRow}
    (hentry : entry ∈ db.tree.namedEntries directoryId) (hfits : ¬CursorFits directory entry) :
    listOn ignore token directoryId (pageQuery limit (some (encodeCursor (cursorAfter directoryId directory entry)))) db =
      some (.error 400 "invalid VFS directory-list query") := by
  have hquery := queryOptions_pageQuery ignore hlimit (some (encodeCursor (cursorAfter directoryId directory entry)))
  have hdecode := (decodeCursor_encodeCursor ignore (h.valid_cursorAfter hentry)).trans (if_neg hfits)
  dsimp only at hquery
  rw [hdecode, Option.map_none] at hquery
  rw [listOn, list, if_neg h.identifier, hquery]
  rfl

/-- Follow the cursors on an unchanging directory: the entries of every page. -/
def followPages (ignore : List UInt8 → Option (List UInt8)) (token : AuthenticatedToken) (directoryId : Identity)
    (db : Database) (limits : Nat → Nat) : Nat → Nat → Option Text → Option (List (Text × EntryRow))
  | 0, _, _ => none
  | fuel + 1, index, cursor =>
      match listOn ignore token directoryId (pageQuery (limits index) cursor) db with
      | some (.page page) =>
          match page.nextCursor with
          | none => some page.entries
          | some next =>
              (followPages ignore token directoryId db limits fuel (index + 1) (some next)).map (page.entries ++ ·)
      | _ => none

theorem exists_split {α : Type} {limit : Nat} {values : List α} (hlimit : 1 ≤ limit) (hlong : limit < values.length) :
    ∃ front value back, values = front ++ value :: back ∧ front.length + 1 = limit ∧ back ≠ [] := by
  refine ⟨values.take (limit - 1), values[limit - 1], values.drop limit, ?_, ?_, ?_⟩
  · have hdrop := List.drop_eq_getElem_cons (l := values) (i := limit - 1) (by omega)
    rw [Nat.sub_add_cancel hlimit] at hdrop
    rw [← hdrop, List.take_append_drop]
  · rw [List.length_take, min_eq_left (by omega)]
    omega
  · rw [ne_eq, List.drop_eq_nil_iff]
    omega

/-- The pages from a cursor on are the rest of the listing, if every later cursor is read back. -/
theorem Listed.followPages_of_fits (h : Listed db token directoryId directory) {limits : Nat → Nat}
    (hlimits : ∀ index, 1 ≤ limits index ∧ limits index ≤ maximumPageSize) {rest : List (Text × EntryRow)}
    (hfits : ∀ entry ∈ rest.dropLast, CursorFits directory entry) {cursor : Option Text}
    (hstands : Stands db directoryId directory cursor rest) (index : Nat) :
    ∃ fuel, followPages ignore token directoryId db limits fuel index cursor = some rest := by
  induction hlength : rest.length using Nat.strong_induction_on generalizing rest cursor index with
  | _ length ih =>
  have hpage := h.readOn_of_stands ignore (hlimits index) hstands
  by_cases hshort : rest.length ≤ limits index
  · refine ⟨1, ?_⟩
    rw [followPages, hpage, directoryPage_of_le hshort]
  · -- the page ends before some entries, so its last entry has others behind it
    obtain ⟨front, entry, back, rfl, hfront, hback⟩ := exists_split (hlimits index).1 (Nat.not_le.mp hshort)
    have hentry : entry ∈ (front ++ entry :: back).dropLast := by
      rw [List.dropLast_append_of_ne_nil (List.cons_ne_nil entry back), List.dropLast_cons_of_ne_nil hback]
      simp
    obtain ⟨before, hbefore⟩ := hstands.suffix
    have hnext : Stands db directoryId directory (some (encodeCursor (cursorAfter directoryId directory entry))) back :=
      .behind (by rw [hbefore, List.append_assoc]) (hfits entry hentry)
    have hrest : ∀ other ∈ back.dropLast, CursorFits directory other := by
      intro other hother
      apply hfits
      rw [List.dropLast_append_of_ne_nil (List.cons_ne_nil entry back), List.dropLast_cons_of_ne_nil hback]
      simp [hother]
    obtain ⟨fuel, hfuel⟩ := ih back.length (by simp at hlength; omega) hrest hnext (index + 1) rfl
    refine ⟨fuel + 1, ?_⟩
    rw [followPages, hpage, ← hfront, directoryPage_of_lt hback]
    dsimp only
    rw [← cursorAfter, hfuel, Option.map_some, List.append_assoc, List.singleton_append]

/-- Pages of one entry each reach the end only if every cursor on the way is read back. -/
theorem Listed.fits_of_followPages (h : Listed db token directoryId directory) {fuel index : Nat} {cursor : Option Text}
    {rest entries : List (Text × EntryRow)} (hstands : Stands db directoryId directory cursor rest)
    (hfollow : followPages ignore token directoryId db (fun _ => 1) fuel index cursor = some entries) :
    ∀ entry ∈ rest.dropLast, CursorFits directory entry := by
  induction fuel generalizing index cursor rest entries with
  | zero => cases hfollow
  | succ fuel ih =>
      match rest with
      | [] => simp
      | [_] => simp
      | first :: second :: tail =>
          have hlimit : 1 ≤ 1 ∧ 1 ≤ maximumPageSize := by decide
          obtain ⟨before, hbefore⟩ := hstands.suffix
          have hfirst : first ∈ db.tree.namedEntries directoryId := by rw [hbefore]; simp
          have hone : directoryPage directoryId directory 1 ((first :: second :: tail).take (1 + 1)) =
              ⟨directory, [first], some (encodeCursor (cursorAfter directoryId directory first))⟩ := rfl
          rw [followPages, h.readOn_of_stands ignore hlimit hstands, hone] at hfollow
          dsimp only at hfollow
          obtain ⟨more, hmore, _⟩ := Option.map_eq_some_iff.mp hfollow
          have hfits : CursorFits directory first := by
            by_contra hlong
            cases fuel with
            | zero => cases hmore
            | succ fuel =>
                rw [followPages, h.readOn_of_not_fits ignore hlimit hfirst hlong] at hmore
                cases hmore
          have hnext : Stands db directoryId directory (some (encodeCursor (cursorAfter directoryId directory first)))
              (second :: tail) := .behind hbefore hfits
          rw [List.dropLast_cons_of_ne_nil (List.cons_ne_nil second tail)]
          intro entry hentry
          rcases List.mem_cons.mp hentry with rfl | hentry
          · exact hfits
          · exact ih hnext hmore entry hentry

end Listed

/-! ### A directory that changes -/

/-- Every directory row is still there, as it was or with a larger revision. -/
def RowsAdvance (before after : Table Identity DirectoryRow) : Prop :=
  ∀ id row, before.lookup id = some row → ∃ row', after.lookup id = some row' ∧ (row' = row ∨ row.revision < row'.revision)

theorem RowsAdvance.refl (directories : Table Identity DirectoryRow) : RowsAdvance directories directories :=
  fun _ row hrow => ⟨row, hrow, .inl rfl⟩

theorem RowsAdvance.trans {first second third : Table Identity DirectoryRow} (h : RowsAdvance first second)
    (h' : RowsAdvance second third) : RowsAdvance first third := by
  intro id row hrow
  obtain ⟨middle, hmiddle, hfirst⟩ := h id row hrow
  obtain ⟨last, hlast, hsecond⟩ := h' id middle hmiddle
  refine ⟨last, hlast, ?_⟩
  rcases hfirst with rfl | hlt
  · exact hsecond
  · rcases hsecond with rfl | hlt'
    · exact .inr hlt
    · exact .inr (hlt.trans hlt')

theorem RowsAdvance.modify (directories : Table Identity DirectoryRow) (id : Identity)
    {change : DirectoryRow → DirectoryRow} (hchange : ∀ row, change row = row ∨ row.revision < (change row).revision) :
    RowsAdvance directories (directories.modify id change) := by
  intro found row hrow
  rw [Table.lookup_modify, hrow, Option.map_some]
  split_ifs
  · exact ⟨change row, rfl, hchange row⟩
  · exact ⟨row, rfl, .inl rfl⟩

theorem RowsAdvance.updateRoots (updates : List DirectoryUpdate) (directories : Table Identity DirectoryRow) :
    RowsAdvance directories (updateRoots updates directories) := by
  induction updates generalizing directories with
  | nil => exact .refl directories
  | cons update updates ih =>
      have hfirst : RowsAdvance directories (Skydriver.updateRoots [update] directories) := by
        rw [Skydriver.updateRoots, List.foldl_cons, List.foldl_nil]
        apply RowsAdvance.modify
        intro row
        split_ifs
        · exact .inr (Nat.lt_succ_self row.revision)
        · exact .inl rfl
      rw [updateRoots_cons]
      exact hfirst.trans (ih _)

theorem RowsAdvance.removed (content : EntryContent) (directories : Table Identity DirectoryRow) :
    RowsAdvance directories (removedDirectories content directories) := by
  cases content with
  | file fileId versionId sizeBytes dataRoot metadataRoot => exact .refl directories
  | directory childDirectoryId dataRoot =>
      apply RowsAdvance.modify
      intro row
      split_ifs
      · exact .inr (Nat.lt_succ_self row.revision)
      · exact .inl rfl

theorem RowsAdvance.renamed {target : RenameTarget} {tree : Tree} {content : EntryContent}
    {directories : Table Identity DirectoryRow} (h : RenamedDirectories target tree content directories) :
    RowsAdvance tree.directories directories := by
  cases h with
  | file => exact .refl _
  | unchanged => exact .refl _
  | @moved childDirectoryId dataRoot row hrow =>
      intro id found hfound
      rw [Table.lookup_insert_eq]
      split_ifs with hid
      · subst hid
        rw [hrow] at hfound
        cases hfound
        exact ⟨_, rfl, .inr (Nat.lt_succ_self _)⟩
      · exact ⟨found, hfound, .inl rfl⟩

theorem Committed.rowsAdvance {db after : Database} {mutation : Mutation} (h : Committed db after mutation) :
    RowsAdvance db.tree.directories after.tree.directories := by
  rcases h.tree_cases with ⟨batch, intent, rfl, hput⟩ | ⟨batch, rfl, hmkdir⟩ | ⟨batch, rfl, hremove⟩ |
    ⟨batch, rfl, hrename⟩ | ⟨_, hsame⟩
  · obtain ⟨_, _, _, _, htree⟩ := putTree_eq_some hput.tree
    rw [htree]
    exact .updateRoots _ _
  · obtain ⟨_, _, hfresh, _, _, _, _, _, htree⟩ := mkdirTree_eq_some hmkdir.tree
    rw [htree]
    refine RowsAdvance.trans ?_ (.updateRoots _ _)
    intro id row hrow
    refine ⟨row, ?_, .inl rfl⟩
    rw [AList.lookup_insert_ne, hrow]
    rintro rfl
    rw [hfresh] at hrow
    cases hrow
  · obtain ⟨_, _, htree⟩ := removeTree_eq_some hremove.tree
    rw [htree]
    exact (RowsAdvance.removed _ _).trans (.updateRoots _ _)
  · obtain ⟨_, _, _, hmoved, _, _, _, htree⟩ := renameTree_eq_some hrename.tree
    rw [htree]
    exact (RowsAdvance.renamed hmoved).trans (.updateRoots _ _)
  · rw [hsame]
    exact .refl _

section Changes

variable {prims : Primitives} {permit : Moment Database Mutation → Mutation → Prop} {start : Database}
  {system : ControlState}

theorem rowsAdvance_of_before (hrun : Reachable prims permit start system) {past now : Instant} (hpast : past.Before now)
    (hnow : now.Before system.toMoment) : RowsAdvance past.state.tree.directories now.state.tree.directories := by
  obtain ⟨middle, hfirst, _, rfl⟩ := Machine.runs_of_before hrun hnow
  obtain ⟨earlier, _, hsecond, rfl⟩ := Machine.runs_of_before hfirst hpast
  exact runs_relate (fun before after => RowsAdvance before.tree.directories after.tree.directories)
    (fun _ => .refl _) (fun h h' => h.trans h') (fun hdrift => by rw [hdrift.tree_eq]; exact .refl _)
    (fun _ hcommitted => hcommitted.rowsAdvance) hsecond

/-- What a request is answered when it cannot go on: a conflict, unless meanwhile the token may not list the directory
or there is no such directory. -/
inductive Refused (token : AuthenticatedToken) (directoryId : Identity) (first last : Instant) : ListResponse → Prop where
  | conflict : Refused token directoryId first last (.error 409 "VFS directory changed while listing")
  | unauthorized {later : Instant} (hfirst : first.Before later) (hlast : later.Before last)
      (hdenied : later.state.authorized token directoryId .directoryList = false) :
      Refused token directoryId first last (.error 403 "VFS directory-list authority required")
  | absent {later : Instant} (hfirst : first.Before later) (hlast : later.Before last)
      (hgone : loadListedDirectory later.state directoryId = none) :
      Refused token directoryId first last (.error 404 "VFS directory not found")

/-- Two moments of a run at which a directory has one revision have the same row for it. -/
theorem row_eq_of_revision (hrun : Reachable prims permit start system) {past now : Instant} (hpast : past.Before now)
    (hnow : now.Before system.toMoment) {id : Identity} {row row' : DirectoryRow}
    (hrow : past.state.tree.directories.lookup id = some row) (hrow' : now.state.tree.directories.lookup id = some row')
    (hrevision : row'.revision = row.revision) : row' = row := by
  obtain ⟨found, hfound, hadvance⟩ := rowsAdvance_of_before hrun hpast hnow id row hrow
  rw [hrow'] at hfound
  cases hfound
  exact hadvance.resolve_right hrevision.not_gt

theorem loadListedDirectory_eq_some {db : Database} {directoryId : Identity} {directory : DirectoryIdentity}
    (h : loadListedDirectory db directoryId = some directory) :
    db.tree.directories.lookup directoryId = some directory.row := by
  obtain ⟨row, hrow, rfl⟩ := Option.map_eq_some_iff.mp h
  exact (Option.filter_eq_some_iff.mp hrow).1

theorem loadDirectoryRevision_eq_some {db : Database} {directoryId : Identity} {revision : Nat}
    (h : loadDirectoryRevision db directoryId = some revision) :
    ∃ row, db.tree.directories.lookup directoryId = some row ∧ row.revision = revision := by
  obtain ⟨row, hrow, hrevision⟩ := Option.map_eq_some_iff.mp h
  exact ⟨row, (Option.filter_eq_some_iff.mp hrow).1, hrevision⟩

theorem loadDirectoryRevision_none {db : Database} {directoryId : Identity}
    (h : loadDirectoryRevision db directoryId = none) : loadListedDirectory db directoryId = none := by
  rw [loadDirectoryRevision, Option.map_eq_none_iff] at h
  rw [loadListedDirectory, h, Option.map_none]

/-- A request under the revision of an earlier listing is refused if the directory has changed by its end. -/
theorem refused_of_changed (hrun : Reachable prims permit start system) {past now last : Instant}
    (hpast : past.Before now) (hlast : last.Before system.toMoment) {token : AuthenticatedToken} {directoryId : Identity}
    (hidentifier : directoryId ≠ .zero 16) {row : DirectoryRow}
    (hrow : past.state.tree.directories.lookup directoryId = some row) {query : List (Text × Text)} {limit : Nat}
    {cursor : DirectoryCursor} (hquery : queryOptions ignore query none none = some (limit, some cursor))
    (hcursor : cursor.directoryRevision = row.revision) {response : ListResponse}
    (hyields : (list ignore token directoryId query :
      Program Database Mutation Bool Effect Answer ListResponse).Yields now response last)
    (hchanged : last.state.tree.directories.lookup directoryId ≠ some row) :
    Refused token directoryId now last response := by
  rw [list, if_neg hidentifier, hquery] at hyields
  dsimp only at hyields
  obtain ⟨first, hfirst, hyields⟩ := Program.yields_read_iff.mp hyields
  split at hyields
  · rename_i hdenied
    obtain ⟨rfl, rfl⟩ := Program.yields_done_iff.mp hyields
    exact .unauthorized hfirst (.refl _) (by simpa using hdenied)
  obtain ⟨second, hsecond, hyields⟩ := Program.yields_read_iff.mp hyields
  split at hyields
  · rename_i hgone
    obtain ⟨rfl, rfl⟩ := Program.yields_done_iff.mp hyields
    exact .absent (hfirst.trans hsecond) (.refl _) hgone
  rename_i directory hloaded
  split at hyields
  · obtain ⟨rfl, rfl⟩ := Program.yields_done_iff.mp hyields
    exact .conflict
  rename_i hpinned
  obtain ⟨third, hthird, hyields⟩ := Program.yields_read_iff.mp hyields
  obtain ⟨fourth, hfourth, hyields⟩ := Program.yields_read_iff.mp hyields
  have hend := hyields.before
  split at hyields
  · rename_i hgone
    obtain ⟨rfl, rfl⟩ := Program.yields_done_iff.mp hyields
    exact .absent (((hfirst.trans hsecond).trans hthird).trans hfourth) (.refl _) (loadDirectoryRevision_none hgone)
  rename_i revision hrevision
  split at hyields
  · obtain ⟨rfl, rfl⟩ := Program.yields_done_iff.mp hyields
    exact .conflict
  -- the revision is still the one of the cursor, so the row is still the one that was listed
  rename_i hsame
  obtain ⟨rfl, rfl⟩ := Program.yields_done_iff.mp hyields
  obtain ⟨row', hrow', rfl⟩ := loadDirectoryRevision_eq_some hrevision
  simp only [Option.any_some, Bool.or_eq_true, bne_iff_ne, not_or, not_not] at hpinned
  have heq := row_eq_of_revision hrun ((((hpast.trans hfirst).trans hsecond).trans hthird).trans hfourth) hlast hrow hrow'
    (by rw [not_not.mp hsame, ← hpinned.2, hcursor])
  exact absurd (heq ▸ hrow') hchanged

end Changes

/-! ### Pagination -/

/-- Following the pages of a directory lists it: in pages of any sizes, every entry once and in order; every cursor on a
page is read back; and a request with a cursor is refused once the directory has changed. -/
structure Paginates (ignore : List UInt8 → Option (List UInt8)) (db : Database) (token : AuthenticatedToken)
    (directoryId : Identity) (directory : DirectoryIdentity) : Prop where
  complete : ∀ limits : Nat → Nat, (∀ index, 1 ≤ limits index ∧ limits index ≤ maximumPageSize) →
    ∃ fuel entries, followPages ignore token directoryId db limits fuel 0 none = some entries ∧
      KeyOrder.StrictlyOrdered Prod.fst entries ∧
      ∀ name row, (name, row) ∈ entries ↔ db.tree.entries.lookup (directoryId, name) = some row
  roundTrip : ∀ query page text, listOn ignore token directoryId query db = some (.page page) →
    page.nextCursor = some text → ∃ cursor, encodeCursor cursor = text ∧ decodeCursor ignore text = some cursor
  conflict : ∀ prims permit start system, Reachable prims permit start system →
    ∀ past now last : Instant, past.Before now → last.Before system.toMoment → past.state = db →
      ∀ caller query limit cursor, queryOptions ignore query none none = some (limit, some cursor) →
        cursor.directoryRevision = directory.row.revision →
          ∀ response, (list ignore caller directoryId query :
              Program Database Mutation Bool Effect Answer ListResponse).Yields now response last →
            last.state.tree.directories.lookup directoryId ≠ db.tree.directories.lookup directoryId →
              Refused caller directoryId now last response

section Pages

variable {db : Database} {token : AuthenticatedToken} {directoryId : Identity} {directory : DirectoryIdentity}

theorem Listed.cursor_of_page (h : Listed db token directoryId directory) {query : List (Text × Text)}
    {page : DirectoryPage} {text : Text} (hpage : listOn ignore token directoryId query db = some (.page page))
    (htext : page.nextCursor = some text) :
    ∃ entry ∈ (db.tree.namedEntries directoryId).dropLast, text = encodeCursor (cursorAfter directoryId directory entry) := by
  obtain ⟨limit, after, heq⟩ := h.page_of_readOn ignore hpage
  have hmore : page.nextCursor.isSome = true := by rw [htext, Option.isSome_some]
  generalize hfetched : (db.tree.entriesAfter directoryId after).take (limit + 1) = fetched at heq
  have hlong : limit < fetched.length := by
    by_contra hshort
    simp [heq, directoryPage, hshort] at hmore
  have hcursor := htext
  rw [heq] at hcursor
  simp only [directoryPage, if_pos hlong] at hcursor
  obtain ⟨entry, hlast, rfl⟩ := Option.map_eq_some_iff.mp hcursor
  refine ⟨entry, mem_dropLast_of_page (heq.trans (by rw [hfetched])) hmore ?_, rfl⟩
  rw [heq]
  simpa only [directoryPage, if_pos hlong] using hlast

/-- Pagination works exactly when the cursor behind every entry but the last stays within its bound: when the name, with
the escapes of its control characters, and the digits of the revision take at most 679 bytes. -/
theorem paginates_iff (h : Listed db token directoryId directory) :
    Paginates ignore db token directoryId directory ↔
      ∀ entry ∈ (db.tree.namedEntries directoryId).dropLast, CursorFits directory entry := by
  constructor
  · intro hpaginates
    obtain ⟨fuel, entries, hfollow, _⟩ := hpaginates.complete (fun _ => 1) fun _ => by decide
    exact h.fits_of_followPages ignore .start hfollow
  · intro hfits
    refine ⟨?_, ?_, ?_⟩
    · intro limits hlimits
      obtain ⟨fuel, hfollow⟩ := h.followPages_of_fits ignore hlimits hfits .start 0
      refine ⟨fuel, _, hfollow, db.tree.namedEntries_ordered directoryId, ?_⟩
      intro name row
      exact db.tree.mem_namedEntries directoryId
    · intro query page text hpage htext
      obtain ⟨entry, hentry, rfl⟩ := h.cursor_of_page ignore hpage htext
      have hvalid := h.valid_cursorAfter (List.mem_of_mem_dropLast hentry)
      exact ⟨_, rfl, (decodeCursor_encodeCursor ignore hvalid).trans (if_pos (hfits entry hentry))⟩
    · intro prims permit start system hrun past now last hpast hlast hstate caller query limit cursor hquery hcursor
        response hyields hchanged
      have hrow := loadListedDirectory_eq_some h.loaded
      rw [hrow] at hchanged
      exact refused_of_changed ignore hrun hpast hlast h.identifier (hstate ▸ hrow) hquery hcursor hyields hchanged

end Pages

namespace Sample

def lister : AuthenticatedToken := ⟨tokenId, principalId, root, 1000000000⟩

/-- Two directories are created, the first one under the given name. -/
def twoDirectories (name : Text) : List (Machine.Event Request Database Answer) :=
  complete 0 (createRequest 0 root name) ++ complete 1 (createRequest 1 root [98])

def listedRoot (db : Database) : DirectoryIdentity := ⟨(db.tree.directories.lookup root).getD rootRow, 1, 1⟩

def controlName : Text := List.replicate 120 1

theorem listed_twoDirectories {name : Text} (hname : name = [97] ∨ name = controlName) :
    Listed (run (twoDirectories name)).state lister root (listedRoot (run (twoDirectories name)).state) where
  identifier := by decide
  authorized := by rcases hname with rfl | rfl <;> decide +kernel
  loaded := by rcases hname with rfl | rfl <;> decide +kernel
  revision := by rcases hname with rfl | rfl <;> decide +kernel
  names := by rcases hname with rfl | rfl <;> decide +kernel

end Sample

theorem paginates_twoDirectories :
    Paginates (fun _ => none) (Sample.run (Sample.twoDirectories [97])).state Sample.lister Sample.root
      (Sample.listedRoot (Sample.run (Sample.twoDirectories [97])).state) := by
  apply (paginates_iff (fun _ => none) (Sample.listed_twoDirectories (.inl rfl))).mpr
  unfold CursorFits
  decide +kernel

/-- Behind a name of 120 control characters, a valid one, the listing cannot go on. -/
theorem pagination_stops :
    ∃ system, Reachable Sample.prims anyBatch Sample.database system ∧ ∃ directory,
      Listed system.state Sample.lister Sample.root directory ∧
        ∀ ignore, ¬Paginates ignore system.state Sample.lister Sample.root directory := by
  refine ⟨Sample.run (Sample.twoDirectories Sample.controlName), ?_, _, Sample.listed_twoDirectories (.inr rfl), ?_⟩
  · apply Sample.reachable_any_run
    intro change hmem
    simp [Sample.twoDirectories, Sample.complete, Sample.advances] at hmem
  · intro ignore hpaginates
    have hlisted := Sample.listed_twoDirectories (.inr rfl)
    obtain ⟨fuel, entries, hfollow, _⟩ := hpaginates.complete (fun _ => 1) fun _ => by decide
    have hfits := hlisted.fits_of_followPages ignore .start hfollow
    unfold CursorFits at hfits
    revert hfits
    decide +kernel

end Skydriver
