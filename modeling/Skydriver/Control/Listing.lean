import Skydriver.Control.Committed
import Skydriver.Lib.Base64Url
import Skydriver.Lib.StrictJson

/-!
# Listing a directory

A page lists the entries behind a name, in byte order.  The cursor to the next page names the last entry of this one, and
the revision of the directory that the listing is of; a request under another revision is a conflict.
-/

namespace Skydriver

open StrictJson (expect scanObject scanString scanU64)

def defaultPageSize : Nat := 200
def maximumPageSize : Nat := 1000
def maximumCursorBytes : Nat := 1024

/-! ### Cursors -/

/-- `DirectoryCursor`. -/
structure DirectoryCursor where
  directoryId : Text
  directoryRevision : Nat
  afterName : Text
deriving DecidableEq

def DirectoryCursor.json (cursor : DirectoryCursor) : Text :=
  0x7B :: (StrictJson.quote (utf8 "directory_id") ++ 0x3A :: (StrictJson.quote cursor.directoryId ++
    0x2C :: (StrictJson.quote (utf8 "directory_revision") ++ 0x3A :: (Json.decimal cursor.directoryRevision ++
      0x2C :: (StrictJson.quote (utf8 "after_name") ++ 0x3A :: (StrictJson.quote cursor.afterName ++ [0x7D]))))))

/-- `encode_cursor`. -/
def encodeCursor (cursor : DirectoryCursor) : Text := Base64Url.encode cursor.json

/-- The members of a cursor read so far. -/
structure PartialCursor where
  directoryId : Option Text
  directoryRevision : Option Nat
  afterName : Option Text

/-- A cursor of which every member was read. -/
def PartialCursor.complete (cursor : PartialCursor) : Option DirectoryCursor := do
  let directoryId ← cursor.directoryId
  let directoryRevision ← cursor.directoryRevision
  let afterName ← cursor.afterName
  some ⟨directoryId, directoryRevision, afterName⟩

section Requests

-- how the JSON reader passes over the value of a member that the record does not have
variable (ignore : List UInt8 → Option (List UInt8))

/-- The value of one member; no member comes twice. -/
def readCursorMember (name : List UInt8) (cursor : PartialCursor) (value : List UInt8) :
    Option (PartialCursor × List UInt8) :=
  if name = utf8 "directory_id" then
    if cursor.directoryId.isSome then none
    else (scanString value).map fun (found, behind) => ({ cursor with directoryId := some found }, behind)
  else if name = utf8 "directory_revision" then
    if cursor.directoryRevision.isSome then none
    else (scanU64 value).map fun (found, behind) => ({ cursor with directoryRevision := some found }, behind)
  else if name = utf8 "after_name" then
    if cursor.afterName.isSome then none
    else (scanString value).map fun (found, behind) => ({ cursor with afterName := some found }, behind)
  else (ignore value).map fun behind => (cursor, behind)

/-- A cursor from an array of its members, behind the opening bracket. -/
def readCursorArray (text : List UInt8) : Option (DirectoryCursor × List UInt8) := do
  let (directoryId, behind) ← scanString (Json.skipBlank text)
  let (directoryRevision, behind) ← scanU64 (← expect 0x2C behind)
  let (afterName, behind) ← scanString (← expect 0x2C behind)
  some (⟨directoryId, directoryRevision, afterName⟩, ← expect 0x5D behind)

/-- `serde_json::from_slice::<DirectoryCursor>`. -/
def readCursor (text : List UInt8) : Option DirectoryCursor :=
  match Json.skipBlank text with
  | [] => none
  | byte :: rest =>
      if byte = 0x7B then do
        let (cursor, behind) ← scanObject (readCursorMember ignore) text.length ⟨none, none, none⟩ rest
        if Json.skipBlank behind = [] then cursor.complete else none
      else if byte = 0x5B then do
        let (cursor, behind) ← readCursorArray rest
        if behind = [] then some cursor else none
      else none

/-- `valid_identifier`. -/
def validIdentifier (value : Text) : Bool :=
  value.length == 32 && value != List.replicate 32 0x30 &&
    value.all fun byte => Json.isDigit byte || (0x61 ≤ byte && byte ≤ 0x66)

/-- `decode_cursor`. -/
def decodeCursor (encoded : Text) : Option DirectoryCursor :=
  if encoded.isEmpty ∨ encoded.length > maximumCursorBytes then none
  else do
    let bytes ← Base64Url.decode encoded
    let cursor ← readCursor ignore bytes
    if !validIdentifier cursor.directoryId ∨ cursor.directoryRevision = 0 ∨ !isStoredName cursor.afterName then none
    else some cursor

/-! ### Requests -/

/-- `str::parse::<u64>`. -/
def parseU64 (text : Text) : Option Nat :=
  let digits := if text.head? = some 0x2B then text.tail else text
  if digits.isEmpty ∨ !digits.all Json.isDigit then none
  else (some (Json.decimalValue digits)).filter fun value => value < 2 ^ 64

/-- `query_options`, over the decoded pairs of the query. -/
def queryOptions : List (Text × Text) → Option Nat → Option DirectoryCursor → Option (Nat × Option DirectoryCursor)
  | [], limit, cursor => some (limit.getD defaultPageSize, cursor)
  | (key, value) :: pairs, limit, cursor =>
      if key = utf8 "limit" ∧ limit = none then
        match parseU64 value with
        | none => none
        | some parsed =>
            if 1 ≤ parsed ∧ parsed ≤ maximumPageSize then queryOptions pairs (some parsed) cursor else none
      else if key = utf8 "cursor" ∧ cursor = none then
        match decodeCursor ignore value with
        | none => none
        | some decoded => queryOptions pairs limit (some decoded)
      else none

/-! ### Pages -/

/-- A directory as a page shows it. -/
structure DirectoryIdentity where
  row : DirectoryRow
  aclRevision : Nat
  placementRevision : Nat
deriving DecidableEq

/-- `load_directory`. -/
def loadListedDirectory (db : Database) (directoryId : Identity) : Option DirectoryIdentity :=
  ((db.tree.directories.lookup directoryId).filter fun row => row.state == .active).map fun row =>
    ⟨row, (db.authority.aclRevisions.lookup directoryId).getD 0,
      (db.authority.placementRevisions.lookup directoryId).getD 0⟩

/-- `load_directory_revision`. -/
def loadDirectoryRevision (db : Database) (directoryId : Identity) : Option Nat :=
  ((db.tree.directories.lookup directoryId).filter fun row => row.state == .active).map DirectoryRow.revision

/-- The entries of a directory in the byte order of their names. -/
def Tree.namedEntries (tree : Tree) (directoryId : Identity) : List (Text × EntryRow) :=
  KeyOrder.sortByKey Prod.fst
    ((tree.entries.entries.filter fun row => row.1.1 == directoryId).map fun row => (row.1.2, row.2))

/-- `SELECT … WHERE directory_id = ? AND name > ? COLLATE BINARY ORDER BY name COLLATE BINARY`. -/
def Tree.entriesAfter (tree : Tree) (directoryId : Identity) (after : Text) : List (Text × EntryRow) :=
  KeyOrder.sortByKey Prod.fst
    ((tree.entries.entries.filter fun row => row.1.1 == directoryId && after < row.1.2).map fun row => (row.1.2, row.2))

/-- `DirectoryListResponse`. -/
structure DirectoryPage where
  directory : DirectoryIdentity
  entries : List (Text × EntryRow)
  nextCursor : Option Text
deriving DecidableEq

inductive ListResponse where
  | page (page : DirectoryPage)
  | error (status : Nat) (message : String)
deriving DecidableEq

def identifierText (id : Identity) : Text := hexEncode id.val

/-- What the page is made of: one row too many was asked for, and tells whether there is more. -/
def directoryPage (directoryId : Identity) (directory : DirectoryIdentity) (limit : Nat)
    (fetched : List (Text × EntryRow)) : DirectoryPage :=
  let hasMore := limit < fetched.length
  let entries := if hasMore then fetched.dropLast else fetched
  { directory, entries
    nextCursor :=
      if hasMore then
        entries.getLast?.map fun entry =>
          encodeCursor ⟨identifierText directoryId, directory.row.revision, entry.1⟩
      else none }

variable {μ ρ ε ι : Type}

/-- `vfs_directories::list`. -/
def list (token : AuthenticatedToken) (directoryId : Identity) (query : List (Text × Text)) :
    Program Database μ ρ ε ι ListResponse :=
  let changed := "VFS directory changed while listing"
  if directoryId = .zero 16 then .done (.error 400 "invalid VFS directory ID")
  else
  match queryOptions ignore query none none with
  | none => .done (.error 400 "invalid VFS directory-list query")
  | some (limit, cursor) =>
  .read fun db =>
  if !db.authorized token directoryId .directoryList then .done (.error 403 "VFS directory-list authority required")
  else
  .read fun db =>
  match loadListedDirectory db directoryId with
  | none => .done (.error 404 "VFS directory not found")
  | some directory =>
  if cursor.any fun position =>
      position.directoryId != identifierText directoryId || position.directoryRevision != directory.row.revision then
    .done (.error 409 changed)
  else
  .read fun db =>
  let fetched := (db.tree.entriesAfter directoryId (cursor.elim [] DirectoryCursor.afterName)).take (limit + 1)
  .read fun db =>
  match loadDirectoryRevision db directoryId with
  | none => .done (.error 404 "VFS directory not found")
  | some revision =>
  if revision ≠ directory.row.revision then .done (.error 409 changed)
  else .done (.page (directoryPage directoryId directory limit fetched))

end Requests

end Skydriver
