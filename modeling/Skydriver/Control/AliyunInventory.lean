import Skydriver.Integrity.Directory
import Skydriver.Lib.StrictJson
import Skydriver.Lib.Traversal

/-!
# Listing a hosted folder tree

One inventory run asks the provider for a few pages of folders and keeps the folders that are still open in its cursor: a
stack of frames, each with the marker up to which its folder has been listed.  The next run takes up the stack again.  The
runs together list every file of the tree once, wherever they end.
-/

namespace Skydriver.DriverInventory

open Json (skipBlank)
open StrictJson (quote scanObject scanString scanU64 expect objectText arrayText Reads)

def pageSize : Nat := 100
def maximumAliyunPagesPerRun : Nat := 8
def maximumAliyunCursorBytes : Nat := 64 * 1024

/-! ### Strings -/

abbrev Str := { text : Text // Utf8.valid text = true }

namespace Str

def empty : Str := ⟨[], rfl⟩

def isEmpty (text : Str) : Bool := text.val.isEmpty

/-- `format!("{}/{}")` -/
def slash (parent name : Str) : Str :=
  ⟨parent.val ++ 0x2F :: name.val, by
    rw [Utf8.valid_append (by decide), parent.property, name.property]
    rfl⟩

/-- A text of ASCII letters. -/
def ofText (text : Text) (h : Utf8.valid text = true := by decide) : Str := ⟨text, h⟩

end Str

/-! ### The provider -/

structure DriveInfo where
  defaultDriveId : Str
  resourceDriveId : Str
  backupDriveId : Str

structure AliyunFile where
  fileId : Option Str
  name : Option Str
  fileName : Option Str
  size : Option Int64
  kind : Option Str
deriving DecidableEq

structure AliyunListResponse where
  items : List AliyunFile
  nextMarker : Str

/-- The body of a request for one page of a folder. -/
structure ListRequest where
  driveId : Str
  parentFileId : Str
  limit : Nat
  marker : Str
  orderBy : Str
  orderDirection : Str

inductive ProviderError where
  /-- `Aliyun inventory API returned HTTP code` -/
  | status (code : Nat)
  | fetch
  | json
deriving DecidableEq

/-- What `aliyun_post` gets back from the two paths that the inventory uses. -/
structure Provider where
  getDriveInfo : (apiBaseUrl accessToken : Str) → Except ProviderError DriveInfo
  openFileList : (apiBaseUrl accessToken : Str) → ListRequest → Except ProviderError AliyunListResponse

structure AliyunCredential where
  accessToken : Str

/-! ### Cursors -/

structure AliyunFrame where
  folderId : Str
  path : Str
  marker : Str

/-- A traversal: the frames still to be listed, the next one at the end. -/
structure AliyunCursor where
  stack : List AliyunFrame

def AliyunFrame.members (frame : AliyunFrame) : List (Text × Text) :=
  [(utf8 "folder_id", quote frame.folderId.val), (utf8 "path", quote frame.path.val), (utf8 "marker", quote frame.marker.val)]

def AliyunFrame.text (frame : AliyunFrame) : Text := 0x7B :: objectText frame.members

/-- `serde_json::to_string`. -/
def AliyunCursor.text (cursor : AliyunCursor) : Text :=
  0x7B :: objectText [(utf8 "stack", 0x5B :: arrayText (cursor.stack.map AliyunFrame.text))]

def scanStr (text : Text) : Option (Str × Text) :=
  match scanString text with
  | some (bytes, behind) => if h : Utf8.valid bytes = true then some (⟨bytes, h⟩, behind) else none
  | none => none

/-- The members of a frame read so far. -/
structure PartialFrame where
  folderId : Option Str
  path : Option Str
  marker : Option Str

def PartialFrame.complete (frame : PartialFrame) : Option AliyunFrame := do
  let folderId ← frame.folderId
  let path ← frame.path
  let marker ← frame.marker
  some { folderId, path, marker }

/-- The value of one member; no member comes twice and none is unknown. -/
def readFrameMember (name : Text) (frame : PartialFrame) (value : Text) : Option (PartialFrame × Text) :=
  if name = utf8 "folder_id" then
    StrictJson.readOnce frame.folderId scanStr (fun found => { frame with folderId := some found }) value
  else if name = utf8 "path" then
    StrictJson.readOnce frame.path scanStr (fun found => { frame with path := some found }) value
  else if name = utf8 "marker" then
    StrictJson.readOnce frame.marker scanStr (fun found => { frame with marker := some found }) value
  else none

/-- A frame from an array of its members, behind the opening bracket. -/
def readFrameArray (text : Text) : Option (AliyunFrame × Text) := do
  let (folderId, behind) ← scanStr (skipBlank text)
  let (path, behind) ← scanStr (← expect 0x2C behind)
  let (marker, behind) ← scanStr (← expect 0x2C behind)
  some ({ folderId, path, marker }, ← expect 0x5D behind)

def readFrame (text : Text) : Option (AliyunFrame × Text) :=
  match text with
  | [] => none
  | byte :: rest =>
      if byte = 0x7B then do
        let (frame, behind) ← scanObject readFrameMember rest.length ⟨none, none, none⟩ rest
        some (← frame.complete, behind)
      else if byte = 0x5B then readFrameArray rest
      else none

def readStack (text : Text) : Option (List AliyunFrame × Text) :=
  match text with
  | [] => none
  | byte :: rest => if byte = 0x5B then StrictJson.scanArray readFrame rest.length rest else none

def readCursorMember (name : Text) (stack : Option (List AliyunFrame)) (value : Text) :
    Option (Option (List AliyunFrame) × Text) :=
  if name = utf8 "stack" then StrictJson.readOnce stack readStack some value else none

/-- `serde_json::from_str::<AliyunCursor>`. -/
def AliyunCursor.fromStr (text : Text) : Option AliyunCursor :=
  match skipBlank text with
  | [] => none
  | byte :: rest =>
      if byte = 0x7B then do
        let (stack, behind) ← scanObject readCursorMember rest.length none rest
        if skipBlank behind = [] then stack.map .mk else none
      else if byte = 0x5B then do
        let (stack, behind) ← readStack (skipBlank rest)
        if (← expect 0x5D behind) = [] then some ⟨stack⟩ else none
      else none

/-! ### One run -/

structure AliyunDriveConfig where
  apiBaseUrl : Str
  driveType : Str
  rootFolderId : Str
  uploadPartBytes : Nat

structure ObservedObject where
  storageKey : Str
  providerVersion : Str
  sizeBytes : UInt64
deriving DecidableEq

structure ProviderPage where
  objects : List ObservedObject
  nextCursor : Option Text
deriving DecidableEq

inductive InventoryError where
  /-- The configuration does not decode. -/
  | configuration
  /-- `unsafe Aliyun inventory API base URL` -/
  | apiBaseUrl
  /-- `invalid Aliyun drive type` -/
  | driveType
  /-- `invalid Aliyun inventory cursor` -/
  | cursor
  /-- `Aliyun inventory cursor exceeds the bounded state limit` -/
  | cursorLimit
  | provider (cause : ProviderError)
deriving DecidableEq

namespace AliyunFile

/-- `item.name.filter(|name| !name.is_empty()).or(item.file_name)` -/
def displayName (item : AliyunFile) : Option Str := (item.name.filter fun name => !name.isEmpty).or item.fileName

def hasFileId (item : AliyunFile) : Bool := item.fileId.any fun fileId => !fileId.isEmpty

def hasSize (item : AliyunFile) : Bool := item.size.any fun size => decide (0 ≤ size)

end AliyunFile

/-- What an item of a folder's page is taken for. -/
inductive Observation where
  | folder (frame : AliyunFrame)
  | object (object : ObservedObject)

namespace Observation

def frame? : Observation → Option AliyunFrame
  | .folder frame => some frame
  | .object _ => none

def object? : Observation → Option ObservedObject
  | .folder _ => none
  | .object found => some found

end Observation

def childPath (parent name : Str) : Str := if parent.isEmpty then name else parent.slash name

/-- `u64::try_from(size.unwrap_or_default()).unwrap_or_default()` -/
def sizeBytes (size : Option Int64) : UInt64 := .ofNat (size.getD 0).toInt.toNat

def observe (parent : Str) (item : AliyunFile) : Option Observation := do
  let fileId ← item.fileId
  let name ← item.displayName
  let path := childPath parent name
  if item.kind.map (·.val) = some (utf8 "folder") ∧ !fileId.isEmpty then
    some (.folder { folderId := fileId, path, marker := .empty })
  else if item.kind.map (·.val) = some (utf8 "file") ∧ !fileId.isEmpty ∧ item.hasSize then
    some (.object { storageKey := path, providerVersion := fileId, sizeBytes := sizeBytes item.size })
  else none

section Listing

variable (provider : Provider) (config : AliyunDriveConfig) (credential : AliyunCredential) (driveId : Str)

/-- The request for the page of a folder behind a marker. -/
def fetchPage (folderId marker : Str) : Except ProviderError AliyunListResponse :=
  provider.openFileList config.apiBaseUrl credential.accessToken {
    driveId
    parentFileId := folderId
    limit := pageSize
    marker
    orderBy := .ofText (utf8 "name")
    orderDirection := .ofText (utf8 "ASC") }

/-- One provider page: the rest of the folder goes on the stack, the folders found on top of it, the first one topmost. -/
def expandFrame (frame : AliyunFrame) : Except InventoryError (List AliyunFrame × List ObservedObject) := do
  let page ← (fetchPage provider config credential driveId frame.folderId frame.marker).mapError .provider
  let observed := page.items.filterMap (observe frame.path)
  let others := if page.nextMarker.isEmpty then [] else [{ frame with marker := page.nextMarker }]
  .ok (others ++ (observed.filterMap Observation.frame?).reverse, observed.filterMap Observation.object?)

def safeBaseUrl : Bool :=
  (utf8 "https://").isPrefixOf config.apiBaseUrl.val && !(utf8 "/").isSuffixOf config.apiBaseUrl.val

def DriveInfo.select (drive : DriveInfo) (driveType : Str) : Option Str :=
  if driveType.val = utf8 "default" then some drive.defaultDriveId
  else if driveType.val = utf8 "resource" then some drive.resourceDriveId
  else if driveType.val = utf8 "backup" then some drive.backupDriveId
  else none

def rootFrame : AliyunFrame := { folderId := config.rootFolderId, path := .empty, marker := .empty }

def openTraversal (cursor : Option Text) : Option AliyunCursor :=
  match cursor with
  | some encoded => AliyunCursor.fromStr encoded
  | none => some { stack := [rootFrame config] }

def sealTraversal (traversal : AliyunCursor) : Except InventoryError (Option Text) :=
  if traversal.stack.isEmpty then .ok none
  else if maximumAliyunCursorBytes < traversal.text.length then .error .cursorLimit
  else .ok (some traversal.text)

/-- Up to eight provider pages, until there are a hundred objects. -/
def runTraversal (traversal : AliyunCursor) : Except InventoryError ProviderPage := do
  let (stack, objects) ← Traversal.run (expandFrame provider config credential driveId) pageSize maximumAliyunPagesPerRun
    traversal.stack []
  .ok { objects, nextCursor := ← sealTraversal { stack } }

end Listing

def listAliyunPage (provider : Provider) (config : Option AliyunDriveConfig) (cursor : Option Text)
    (credential : AliyunCredential) : Except InventoryError ProviderPage := do
  let some config := config | .error .configuration
  if !safeBaseUrl config then .error .apiBaseUrl
  let drive ← (provider.getDriveInfo config.apiBaseUrl credential.accessToken).mapError .provider
  let some driveId := drive.select config.driveType | .error .driveType
  let some traversal := openTraversal config cursor | .error .cursor
  runTraversal provider config credential driveId traversal

/-! ### Cursors are read back -/

theorem scanStr_quote (text : Str) (after : Text) : scanStr (quote text.val ++ after) = some (text, after) := by
  unfold scanStr
  rw [StrictJson.scanString_quote text.property]
  exact dif_pos text.property

theorem reads_frame (frame : AliyunFrame) : Reads readFrameMember ⟨none, none, none⟩ frame.members
    ⟨some frame.folderId, some frame.path, some frame.marker⟩ := by
  have hvalid : Utf8.valid (utf8 "folder_id") = true ∧ Utf8.valid (utf8 "path") = true ∧ Utf8.valid (utf8 "marker") = true := by
    decide
  have hnames : utf8 "path" ≠ utf8 "folder_id" ∧ utf8 "marker" ≠ utf8 "folder_id" ∧ utf8 "marker" ≠ utf8 "path" := by
    decide
  apply Reads.cons hvalid.1 (StrictJson.skipBlank_quote _)
  · intro byte after _
    rw [readFrameMember, if_pos rfl]
    exact StrictJson.readOnce_none (scanStr_quote frame.folderId _)
  apply Reads.cons hvalid.2.1 (StrictJson.skipBlank_quote _)
  · intro byte after _
    rw [readFrameMember, if_neg hnames.1, if_pos rfl]
    exact StrictJson.readOnce_none (scanStr_quote frame.path _)
  apply Reads.cons hvalid.2.2 (StrictJson.skipBlank_quote _)
  · intro byte after _
    rw [readFrameMember, if_neg hnames.2.1, if_neg hnames.2.2, if_pos rfl]
    exact StrictJson.readOnce_none (scanStr_quote frame.marker _)
  exact .nil _

theorem readFrame_text (frame : AliyunFrame) (after : Text) : readFrame (frame.text ++ after) = some (frame, after) := by
  have hfuel : frame.members.length ≤ (objectText frame.members ++ after).length := by
    rw [List.length_append]
    exact (StrictJson.length_le_objectText _).trans (Nat.le_add_right _ _)
  have hscan := StrictJson.scanObject_of_reads (reads_frame frame) hfuel after
  rw [AliyunFrame.text, List.cons_append, readFrame.eq_def]
  dsimp only
  rw [if_pos rfl, hscan]
  rfl

theorem readStack_text (stack : List AliyunFrame) (after : Text) :
    readStack (0x5B :: arrayText (stack.map AliyunFrame.text) ++ after) = some (stack, after) := by
  have hfuel : stack.length ≤ (arrayText (stack.map AliyunFrame.text) ++ after).length := by
    have hlength := StrictJson.length_le_arrayText (stack.map AliyunFrame.text)
    rw [List.length_map] at hlength
    rw [List.length_append]
    exact hlength.trans (Nat.le_add_right _ _)
  rw [List.cons_append, readStack.eq_def]
  dsimp only
  rw [if_pos rfl]
  exact StrictJson.scanArray_arrayText (fun _ => rfl) (by decide) (fun frame => ⟨objectText frame.members, rfl⟩)
    (fun frame _ byte after _ => readFrame_text frame _) hfuel after

theorem fromStr_text (cursor : AliyunCursor) : AliyunCursor.fromStr cursor.text = some cursor := by
  have hreads : Reads readCursorMember none [(utf8 "stack", 0x5B :: arrayText (cursor.stack.map AliyunFrame.text))]
      (some cursor.stack) := by
    refine Reads.cons (by decide) (fun _ => rfl) (fun byte after _ => ?_) (.nil _)
    rw [readCursorMember, if_pos rfl]
    exact StrictJson.readOnce_none (readStack_text cursor.stack _)
  have hscan := StrictJson.scanObject_of_reads hreads
    (StrictJson.length_le_objectText [(utf8 "stack", 0x5B :: arrayText (cursor.stack.map AliyunFrame.text))]) []
  rw [List.append_nil] at hscan
  have hblank : skipBlank cursor.text = cursor.text := rfl
  rw [AliyunCursor.fromStr, hblank, AliyunCursor.text]
  dsimp only
  rw [if_pos rfl, hscan]
  rfl

/-! ### The provider's tree -/

namespace AliyunFile

/-- A folder that a page can lead to. -/
def isFolder (item : AliyunFile) : Bool :=
  item.kind.map (·.val) == some (utf8 "folder") && item.hasFileId && item.displayName.isSome

/-- A file with an id, a name and a size that is not negative. -/
def isFile (item : AliyunFile) : Bool :=
  item.kind.map (·.val) == some (utf8 "file") && item.hasFileId && item.displayName.isSome && item.hasSize

def id (item : AliyunFile) : Str := item.fileId.getD .empty

def label (item : AliyunFile) : Str := item.displayName.getD .empty

end AliyunFile

/-- A folder tree: every folder has an id and a name, and everything else is a file, or some entry that is neither. -/
inductive Node where
  | leaf (item : AliyunFile) (notFolder : item.isFolder = false)
  | folder (item : AliyunFile) (isFolder : item.isFolder = true) (named : item.label ≠ .empty) (children : List Node)

def slashJoined : List Str → Str
  | [] => .empty
  | [name] => name
  | parent :: rest => parent.slash (slashJoined rest)

namespace Node

def item : Node → AliyunFile
  | leaf item _ => item
  | folder item _ _ _ => item

mutual

/-- The files of a tree, below the folders of the given names. -/
def objects (names : List Str) : Node → List ObservedObject
  | leaf item _ =>
      if item.isFile then
        [{ storageKey := slashJoined (names ++ [item.label]), providerVersion := item.id, sizeBytes := sizeBytes item.size }]
      else []
  | folder item _ _ children => objectsOf (names ++ [item.label]) children

def objectsOf (names : List Str) : List Node → List ObservedObject
  | [] => []
  | node :: rest => objects names node ++ objectsOf names rest

end

end Node

/-- The pages of a folder, by markers; the empty marker is in front of all of them and behind them. -/
def folderPages (fetch : Str → Str → Except ProviderError AliyunListResponse) (folderId : Str) (_ : Nat)
    (marker : Option Str) : Except ProviderError (List AliyunFile × Option Str) :=
  (fetch folderId (marker.getD .empty)).map fun page =>
    (page.items, if page.nextMarker.isEmpty then none else some page.nextMarker)

mutual

/-- Each folder of a tree is paged through by its markers, always in the same way. -/
def ServesNode (fetch : Str → Str → Except ProviderError AliyunListResponse) : Node → Prop
  | .leaf _ _ => True
  | .folder item _ _ children =>
      Paging.Followed (folderPages fetch item.id) 0 none (children.map Node.item) ∧ ServesNodes fetch children

def ServesNodes (fetch : Str → Str → Except ProviderError AliyunListResponse) : List Node → Prop
  | [] => True
  | node :: rest => ServesNode fetch node ∧ ServesNodes fetch rest

end

/-- The provider has this tree below a folder. -/
def Serves (fetch : Str → Str → Except ProviderError AliyunListResponse) (folderId : Str) (children : List Node) : Prop :=
  Paging.Followed (folderPages fetch folderId) 0 none (children.map Node.item) ∧ ServesNodes fetch children

/-! ### Paths -/

theorem Str.ne_empty_iff {text : Str} : text ≠ .empty ↔ text.isEmpty = false := by
  rw [Str.isEmpty, List.isEmpty_eq_false_iff, Ne, Subtype.ext_iff]
  rfl

theorem slashJoined_cons (parent : Str) {rest : List Str} (hrest : rest ≠ []) :
    slashJoined (parent :: rest) = parent.slash (slashJoined rest) := by
  cases rest with
  | nil => cases hrest rfl
  | cons second rest => rfl

theorem slash_isEmpty (parent name : Str) : (parent.slash name).isEmpty = false :=
  List.isEmpty_eq_false_iff.mpr (List.append_ne_nil_of_right_ne_nil _ (List.cons_ne_nil _ _))

theorem slash_assoc (first second third : Str) : (first.slash second).slash third = first.slash (second.slash third) :=
  Subtype.ext (List.append_assoc _ _ _)

theorem slashJoined_isEmpty {names : List Str} (hnames : ∀ name ∈ names, name ≠ .empty) (hne : names ≠ []) :
    (slashJoined names).isEmpty = false := by
  cases names with
  | nil => cases hne rfl
  | cons parent rest =>
      cases rest with
      | nil => exact Str.ne_empty_iff.mp (hnames parent List.mem_cons_self)
      | cons second rest => exact slash_isEmpty parent _

theorem slashJoined_concat {names : List Str} (hne : names ≠ []) (name : Str) :
    slashJoined (names ++ [name]) = (slashJoined names).slash name := by
  induction names with
  | nil => cases hne rfl
  | cons parent rest ih =>
      cases rest with
      | nil => rfl
      | cons second rest =>
          have hrest := ih (List.cons_ne_nil second rest)
          rw [slashJoined_cons parent (List.cons_ne_nil second rest), slash_assoc, ← hrest]
          exact slashJoined_cons parent (List.append_ne_nil_of_left_ne_nil (List.cons_ne_nil second rest) _)

theorem childPath_slashJoined {names : List Str} (hnames : ∀ name ∈ names, name ≠ .empty) (name : Str) :
    childPath (slashJoined names) name = slashJoined (names ++ [name]) := by
  rw [childPath]
  by_cases hne : names = []
  · subst hne
    rfl
  · rw [slashJoined_isEmpty hnames hne, slashJoined_concat hne]
    rfl

/-! ### What a page leads to -/

theorem observe_eq (parent : Str) (item : AliyunFile) : observe parent item =
    if item.isFolder then
      some (.folder { folderId := item.id, path := childPath parent item.label, marker := .empty })
    else if item.isFile then
      some (.object {
        storageKey := childPath parent item.label
        providerVersion := item.id
        sizeBytes := sizeBytes item.size })
    else none := by
  unfold observe AliyunFile.isFolder AliyunFile.isFile AliyunFile.id AliyunFile.label AliyunFile.hasFileId
  cases item.fileId with
  | none => simp
  | some fileId =>
      cases item.displayName with
      | none => simp
      | some name => simp [and_assoc]

namespace Node

/-- The frame of a folder below the folders of the given names. -/
def frame? (names : List Str) : Node → Option AliyunFrame
  | leaf _ _ => none
  | folder item _ _ _ => some { folderId := item.id, path := slashJoined (names ++ [item.label]), marker := .empty }

/-- The file itself, if the node is one. -/
def object? (names : List Str) : Node → Option ObservedObject
  | leaf item _ =>
      if item.isFile then
        some { storageKey := slashJoined (names ++ [item.label]), providerVersion := item.id, sizeBytes := sizeBytes item.size }
      else none
  | folder _ _ _ _ => none

theorem objectsOf_append (names : List Str) (front back : List Node) :
    objectsOf names (front ++ back) = objectsOf names front ++ objectsOf names back := by
  induction front with
  | nil => rfl
  | cons node rest ih => rw [List.cons_append, objectsOf, ih, objectsOf, List.append_assoc]

theorem observe_item {names : List Str} (hnames : ∀ name ∈ names, name ≠ .empty) (node : Node) :
    (observe (slashJoined names) node.item).bind Observation.frame? = node.frame? names ∧
      (observe (slashJoined names) node.item).bind Observation.object? = node.object? names := by
  rw [observe_eq, childPath_slashJoined hnames]
  cases node with
  | leaf item notFolder =>
      rw [Node.item, notFolder, if_neg Bool.false_ne_true, frame?, object?]
      split_ifs
      · exact ⟨rfl, rfl⟩
      · exact ⟨rfl, rfl⟩
  | folder item isFolder named children =>
      rw [Node.item, isFolder, if_pos rfl]
      exact ⟨rfl, rfl⟩

theorem observed_frames {names : List Str} (hnames : ∀ name ∈ names, name ≠ .empty) (nodes : List Node) :
    ((nodes.map Node.item).filterMap (observe (slashJoined names))).filterMap Observation.frame? =
      nodes.filterMap (frame? names) := by
  rw [List.filterMap_filterMap, List.filterMap_map]
  exact congrArg (List.filterMap · nodes) (funext fun node => (observe_item hnames node).1)

theorem observed_objects {names : List Str} (hnames : ∀ name ∈ names, name ≠ .empty) (nodes : List Node) :
    ((nodes.map Node.item).filterMap (observe (slashJoined names))).filterMap Observation.object? =
      nodes.filterMap (object? names) := by
  rw [List.filterMap_filterMap, List.filterMap_map]
  exact congrArg (List.filterMap · nodes) (funext fun node => (observe_item hnames node).2)

end Node

section Exploring

variable {provider : Provider} {config : AliyunDriveConfig} {credential : AliyunCredential} {driveId : Str}

variable (provider config credential driveId) in
/-- The frame of a node leads to the files of the node. -/
def Explorable (names : List Str) (node : Node) : Prop :=
  ∀ frame ∈ node.frame? names, ∃ entries,
    Traversal.Leads (expandFrame provider config credential driveId) frame entries ∧ entries.Perm (node.objects names)

theorem leads_frames {names : List Str} {nodes : List Node}
    (h : ∀ node ∈ nodes, Explorable provider config credential driveId names node) :
    ∃ found, List.Forall₂ (Traversal.Leads (expandFrame provider config credential driveId)) (nodes.filterMap (Node.frame? names))
        found ∧
      (nodes.filterMap (Node.object? names) ++ found.flatten).Perm (Node.objectsOf names nodes) := by
  induction nodes with
  | nil => exact ⟨[], .nil, .refl _⟩
  | cons node rest ih =>
      rw [List.forall_mem_cons] at h
      obtain ⟨found, hfound, hperm⟩ := ih h.2
      cases node with
      | leaf item notFolder =>
          refine ⟨found, hfound, ?_⟩
          rw [Node.objectsOf, Node.objects, List.filterMap_cons, Node.object?]
          split_ifs
          · exact hperm.cons _
          · exact hperm
      | folder item isFolder named children =>
          obtain ⟨entries, hleads, hentries⟩ := h.1 _ rfl
          refine ⟨entries :: found, .cons hleads hfound, ?_⟩
          rw [Node.objectsOf, List.filterMap_cons, List.flatten_cons]
          have hswap : (rest.filterMap (Node.object? names) ++ (entries ++ found.flatten)).Perm
              (entries ++ (rest.filterMap (Node.object? names) ++ found.flatten)) := by
            rw [← List.append_assoc, ← List.append_assoc]
            exact List.perm_append_comm.append_right _
          exact hswap.trans (hentries.append hperm)

theorem folderPages_ok {fetch : Str → Str → Except ProviderError AliyunListResponse} {folderId : Str} {number : Nat}
    {marker next : Option Str} {items : List AliyunFile}
    (h : folderPages fetch folderId number marker = .ok (items, next)) :
    ∃ page, fetch folderId (marker.getD .empty) = .ok page ∧ page.items = items ∧
      (if page.nextMarker.isEmpty then none else some page.nextMarker) = next := by
  rw [folderPages] at h
  cases hfetch : fetch folderId (marker.getD .empty) with
  | error failure =>
      rw [hfetch] at h
      cases h
  | ok page =>
      rw [hfetch, Except.map, Except.ok.injEq, Prod.mk.injEq] at h
      exact ⟨page, rfl, h⟩

theorem expandFrame_eq {names : List Str} (hnames : ∀ name ∈ names, name ≠ .empty) {folderId marker : Str}
    {page : AliyunListResponse} (hfetch : fetchPage provider config credential driveId folderId marker = .ok page)
    {nodes : List Node} (hitems : page.items = nodes.map Node.item) :
    expandFrame provider config credential driveId { folderId, path := slashJoined names, marker } =
      .ok ((if page.nextMarker.isEmpty then [] else
          [{ folderId, path := slashJoined names, marker := page.nextMarker }]) ++
          (nodes.filterMap (Node.frame? names)).reverse,
        nodes.filterMap (Node.object? names)) := by
  rw [expandFrame]
  dsimp only
  rw [hfetch]
  simp only [Except.mapError, bind, Except.bind]
  rw [hitems, Node.observed_frames hnames, Node.observed_objects hnames]

/-- A folder whose pages from a marker on hold these nodes leads to their files. -/
theorem leads_folder {names : List Str} (hnames : ∀ name ∈ names, name ≠ .empty) {folderId : Str} {number : Nat}
    {marker : Option Str} {items : List AliyunFile}
    (hpages : Paging.Followed (folderPages (fetchPage provider config credential driveId) folderId) number marker items)
    {nodes : List Node} (hitems : items = nodes.map Node.item)
    (h : ∀ node ∈ nodes, Explorable provider config credential driveId names node) :
    ∃ entries, Traversal.Leads (expandFrame provider config credential driveId)
        { folderId, path := slashJoined names, marker := marker.getD .empty } entries ∧
      entries.Perm (Node.objectsOf names nodes) := by
  induction hpages generalizing nodes with
  | @last number marker items hpage =>
      obtain ⟨page, hfetch, hpage, hnext⟩ := folderPages_ok hpage
      obtain ⟨found, hfound, hperm⟩ := leads_frames h
      have hexpand := expandFrame_eq hnames hfetch (hpage.trans hitems)
      have hend : page.nextMarker.isEmpty = true := by
        by_contra hmore
        rw [if_neg hmore] at hnext
        cases hnext
      rw [hend, if_pos rfl, List.nil_append] at hexpand
      have hleads := Traversal.leads_of_expand hexpand (List.rel_reverse hfound)
      rw [List.reverse_reverse] at hleads
      exact ⟨_, hleads, hperm⟩
  | @more number marker items rest next hpage hrest ih =>
      obtain ⟨page, hfetch, hpage, hnext⟩ := folderPages_ok hpage
      obtain ⟨front, back, rfl, hfront, hback⟩ := List.map_eq_append_iff.mp hitems.symm
      rw [List.forall_mem_append] at h
      obtain ⟨found, hfound, hperm⟩ := leads_frames h.1
      obtain ⟨others, hothers, hrestPerm⟩ := ih hback.symm h.2
      have hexpand := expandFrame_eq hnames hfetch (hpage.trans hfront.symm)
      have hmore : page.nextMarker.isEmpty = false ∧ page.nextMarker = next := by
        cases hempty : page.nextMarker.isEmpty with
        | true =>
            rw [hempty, if_pos rfl] at hnext
            cases hnext
        | false =>
            rw [hempty, if_neg Bool.false_ne_true, Option.some.injEq] at hnext
            exact ⟨rfl, hnext⟩
      rw [hmore.1, if_neg Bool.false_ne_true, hmore.2] at hexpand
      have hleads := Traversal.leads_of_expand hexpand (List.Forall₂.cons hothers (List.rel_reverse hfound))
      refine ⟨_, hleads, ?_⟩
      rw [List.reverse_cons, List.reverse_reverse, List.flatten_append, List.flatten_singleton, ← List.append_assoc,
        Node.objectsOf_append]
      exact hperm.append hrestPerm

mutual

theorem explorable_node (node : Node) (hserves : ServesNode (fetchPage provider config credential driveId) node)
    (names : List Str) (hnames : ∀ name ∈ names, name ≠ .empty) :
    Explorable provider config credential driveId names node :=
  match node with
  | .leaf _ _ => fun _ hframe => nomatch hframe
  | .folder item isFolder named children => by
      intro frame hframe
      rw [Node.frame?, Option.mem_some_iff] at hframe
      subst hframe
      have hbelow : ∀ name ∈ names ++ [item.label], name ≠ .empty := by
        rw [List.forall_mem_append, List.forall_mem_singleton]
        exact ⟨hnames, named⟩
      exact leads_folder hbelow hserves.1 rfl (explorable_nodes children hserves.2 _ hbelow)

theorem explorable_nodes (nodes : List Node) (hserves : ServesNodes (fetchPage provider config credential driveId) nodes)
    (names : List Str) (hnames : ∀ name ∈ names, name ≠ .empty) :
    ∀ node ∈ nodes, Explorable provider config credential driveId names node :=
  match nodes with
  | [] => fun _ hmem => nomatch hmem
  | node :: rest => by
      rw [List.forall_mem_cons]
      exact ⟨explorable_node node hserves.1 names hnames, explorable_nodes rest hserves.2 names hnames⟩

end

end Exploring

/-! ### The whole traversal -/

/-- The pages that a client gets which feeds every cursor back. -/
def aliyunPages (provider : Provider) (config : Option AliyunDriveConfig) (credential : AliyunCredential) (_ : Nat)
    (cursor : Option Text) : Except InventoryError (List ObservedObject × Option Text) :=
  (listAliyunPage provider config cursor credential).map fun page => (page.objects, page.nextCursor)

section Whole

variable {provider : Provider} {config : AliyunDriveConfig} {credential : AliyunCredential} {drive : DriveInfo}
  {driveId : Str} {children : List Node}

theorem listAliyunPage_eq (hurl : safeBaseUrl config = true)
    (hdrive : provider.getDriveInfo config.apiBaseUrl credential.accessToken = .ok drive)
    (hselect : drive.select config.driveType = some driveId) (cursor : Option Text) :
    listAliyunPage provider (some config) cursor credential =
      match openTraversal config cursor with
      | none => .error .cursor
      | some traversal => runTraversal provider config credential driveId traversal := by
  rw [listAliyunPage]
  dsimp only
  rw [hurl, hdrive]
  simp only [Except.mapError, bind, Except.bind]
  rw [hselect]
  cases openTraversal config cursor with
  | none => rfl
  | some traversal => rfl

theorem runTraversal_eq {traversal : AliyunCursor} {left : List AliyunFrame} {objects : List ObservedObject}
    (hrun : Traversal.run (expandFrame provider config credential driveId) pageSize maximumAliyunPagesPerRun
      traversal.stack [] = .ok (left, objects)) :
    runTraversal provider config credential driveId traversal =
      (sealTraversal ⟨left⟩).map fun nextCursor => { objects, nextCursor } := by
  rw [runTraversal, hrun]
  rfl

theorem sealTraversal_cases (traversal : AliyunCursor) :
    (traversal.stack = [] ∧ sealTraversal traversal = .ok none) ∨
      (traversal.stack ≠ [] ∧
        (sealTraversal traversal = .error .cursorLimit ∨ sealTraversal traversal = .ok (some traversal.text))) := by
  rw [sealTraversal]
  cases hstack : traversal.stack with
  | nil => exact .inl ⟨rfl, rfl⟩
  | cons frame rest =>
      refine .inr ⟨List.cons_ne_nil frame rest, ?_⟩
      rw [List.isEmpty_cons, if_neg Bool.false_ne_true]
      split_ifs
      · exact .inl rfl
      · exact .inr rfl

theorem nextCursor_stands (hurl : safeBaseUrl config = true)
    (hdrive : provider.getDriveInfo config.apiBaseUrl credential.accessToken = .ok drive)
    (hselect : drive.select config.driveType = some driveId) {cursor : Option Text} {page : ProviderPage} {next : Text}
    (hpage : listAliyunPage provider (some config) cursor credential = .ok page) (hnext : page.nextCursor = some next) :
    ∃ before left, openTraversal config cursor = some before ∧
      Traversal.run (expandFrame provider config credential driveId) pageSize maximumAliyunPagesPerRun before.stack [] =
        .ok (left, page.objects) ∧
      AliyunCursor.fromStr next = some ⟨left⟩ := by
  rw [listAliyunPage_eq hurl hdrive hselect] at hpage
  cases hopen : openTraversal config cursor with
  | none =>
      rw [hopen] at hpage
      cases hpage
  | some before =>
      rw [hopen] at hpage
      dsimp only at hpage
      cases hrun : Traversal.run (expandFrame provider config credential driveId) pageSize maximumAliyunPagesPerRun
          before.stack [] with
      | error failure =>
          rw [runTraversal, hrun] at hpage
          cases hpage
      | ok result =>
          obtain ⟨left, objects⟩ := result
          rw [runTraversal_eq hrun] at hpage
          rcases sealTraversal_cases ⟨left⟩ with ⟨_, hseal⟩ | ⟨_, hseal | hseal⟩
          · rw [hseal] at hpage
            cases hpage
            cases hnext
          · rw [hseal] at hpage
            cases hpage
          · rw [hseal] at hpage
            cases hpage
            cases hnext
            exact ⟨before, left, rfl, hrun, fromStr_text ⟨left⟩⟩

theorem aliyunPages_followed (hurl : safeBaseUrl config = true)
    (hdrive : provider.getDriveInfo config.apiBaseUrl credential.accessToken = .ok drive)
    (hselect : drive.select config.driveType = some driveId)
    (hserves : Serves (fetchPage provider config credential driveId) config.rootFolderId children)
    (hbounded : ∀ cursor, Paging.Given (aliyunPages provider (some config) credential) cursor →
      listAliyunPage provider (some config) cursor credential ≠ .error .cursorLimit) :
    ∃ objects, Paging.Followed (aliyunPages provider (some config) credential) 0 none objects ∧
      objects.Perm (Node.objectsOf [] children) := by
  have hnames : ∀ name ∈ ([] : List Str), name ≠ .empty := fun _ hmem => nomatch hmem
  obtain ⟨entries, hleads, hperm⟩ := leads_folder hnames hserves.1 rfl (explorable_nodes children hserves.2 [] hnames)
  obtain ⟨count, hexplored⟩ := hleads Traversal.Explored.done
  rw [List.append_nil, List.nil_append] at hexplored
  let stands (cursor : Option Text) (stack : List AliyunFrame) : Prop :=
    Paging.Given (aliyunPages provider (some config) credential) cursor ∧ openTraversal config cursor = some ⟨stack⟩
  refine ⟨entries, @Traversal.followed_of_explored _ _ _ _ _ _ pageSize maximumAliyunPagesPerRun stands (by decide) ?_ count
    [rootFrame config] entries hexplored (List.cons_ne_nil _ _) none ⟨.start, rfl⟩ 0, hperm⟩
  rintro number cursor stack left found ⟨hgiven, hopen⟩ hrun
  have hpage := listAliyunPage_eq hurl hdrive hselect cursor
  rw [hopen] at hpage
  dsimp only at hpage
  rw [@runTraversal_eq provider config credential driveId ⟨stack⟩ left found hrun] at hpage
  rcases sealTraversal_cases ⟨left⟩ with ⟨hstack, hseal⟩ | ⟨hstack, hseal | hseal⟩
  · rw [hseal] at hpage
    exact .inl ⟨hstack, by rw [aliyunPages, hpage]; rfl⟩
  · rw [hseal] at hpage
    exact absurd hpage (hbounded cursor hgiven)
  · rw [hseal] at hpage
    have hmore : aliyunPages provider (some config) credential number cursor =
        .ok (found, some (AliyunCursor.text ⟨left⟩)) := by
      rw [aliyunPages, hpage]
      rfl
    exact .inr ⟨hstack, _, hmore, .next hgiven hmore, fromStr_text ⟨left⟩⟩

/-- Following the cursors leads through all files of the tree, each once; and each cursor stands for the stack that the run
before it has left. -/
theorem listAliyunPage_complete (hurl : safeBaseUrl config = true)
    (hdrive : provider.getDriveInfo config.apiBaseUrl credential.accessToken = .ok drive)
    (hselect : drive.select config.driveType = some driveId)
    (hserves : Serves (fetchPage provider config credential driveId) config.rootFolderId children)
    (hbounded : ∀ cursor, Paging.Given (aliyunPages provider (some config) credential) cursor →
      listAliyunPage provider (some config) cursor credential ≠ .error .cursorLimit) :
    (∃ objects, Paging.Followed (aliyunPages provider (some config) credential) 0 none objects ∧
      objects.Perm (Node.objectsOf [] children)) ∧
    ∀ cursor page next, listAliyunPage provider (some config) cursor credential = .ok page → page.nextCursor = some next →
      ∃ before left, openTraversal config cursor = some before ∧
        Traversal.run (expandFrame provider config credential driveId) pageSize maximumAliyunPagesPerRun before.stack [] =
          .ok (left, page.objects) ∧
        AliyunCursor.fromStr next = some ⟨left⟩ :=
  ⟨aliyunPages_followed hurl hdrive hselect hserves hbounded,
    fun _ _ _ hpage hnext => nextCursor_stands hurl hdrive hselect hpage hnext⟩

end Whole

/-! ### Scans -/

inductive ScanState where
  | idle
  | scanning
  | complete
  | error
deriving DecidableEq

/-- What the inventory's row of a driver says about the scan of it. -/
structure InventoryRow where
  generation : Nat
  state : ScanState
  cursor : Option Text
  scannedObjects : Nat

namespace InventoryRow

/-- A scan goes on, or a new one begins; a row that holds a cursor and is not scanned does not match the update. -/
def begin (row : InventoryRow) : Option InventoryRow :=
  if row.state = .scanning then some row
  else if row.cursor = none then
    some { generation := row.generation + 1, state := .scanning, cursor := none, scannedObjects := 0 }
  else none

/-- One pass of `run` over a due row that nobody else changes. -/
def run (listPage : Option Text → Except InventoryError ProviderPage) (row : InventoryRow) : InventoryRow :=
  match row.begin with
  | none => row
  | some started =>
      match listPage row.cursor with
      | .error _ => { started with state := .error, cursor := none }
      | .ok page =>
          { started with
            state := if page.nextCursor.isSome then .scanning else .complete
            cursor := page.nextCursor
            scannedObjects := started.scannedObjects + page.objects.length }

variable {listPage : Option Text → Except InventoryError ProviderPage}

theorem run_ok {row started : InventoryRow} (hbegin : row.begin = some started) {entries : List ObservedObject}
    {next : Option Text} (h : (listPage row.cursor).map (fun page => (page.objects, page.nextCursor)) = .ok (entries, next)) :
    row.run listPage =
      { started with
        state := if next.isSome then .scanning else .complete
        cursor := next
        scannedObjects := started.scannedObjects + entries.length } := by
  rw [run, hbegin]
  cases hpage : listPage row.cursor with
  | error failure =>
      rw [hpage] at h
      cases h
  | ok page =>
      rw [hpage, Except.map, Except.ok.injEq, Prod.mk.injEq] at h
      obtain ⟨rfl, rfl⟩ := h
      rfl

theorem run_followed {number : Nat} {cursor : Option Text} {objects : List ObservedObject}
    (h : Paging.Followed (fun _ cursor => (listPage cursor).map fun page => (page.objects, page.nextCursor)) number cursor
      objects) {row started : InventoryRow} (hbegin : row.begin = some started) (hcursor : row.cursor = cursor) :
    ∃ passes, (run listPage)^[passes] row =
      { started with state := .complete, cursor := none, scannedObjects := started.scannedObjects + objects.length } := by
  induction h generalizing row started with
  | last h =>
      rw [← hcursor] at h
      exact ⟨1, run_ok hbegin h⟩
  | @more number cursor entries rest next h _ ih =>
      rw [← hcursor] at h
      have hrun := run_ok hbegin h
      obtain ⟨passes, hpasses⟩ := @ih (row.run listPage) (row.run listPage) (by rw [hrun]; rfl) (by rw [hrun])
      refine ⟨passes + 1, ?_⟩
      rw [Function.iterate_succ_apply, hpasses, hrun, List.length_append, ← Nat.add_assoc]

end InventoryRow

theorem scan_complete {provider : Provider} {config : AliyunDriveConfig} {credential : AliyunCredential} {drive : DriveInfo}
    {driveId : Str} {children : List Node} (hurl : safeBaseUrl config = true)
    (hdrive : provider.getDriveInfo config.apiBaseUrl credential.accessToken = .ok drive)
    (hselect : drive.select config.driveType = some driveId)
    (hserves : Serves (fetchPage provider config credential driveId) config.rootFolderId children)
    (hbounded : ∀ cursor, Paging.Given (aliyunPages provider (some config) credential) cursor →
      listAliyunPage provider (some config) cursor credential ≠ .error .cursorLimit)
    {row : InventoryRow} (hidle : row.state ≠ .scanning) (hcursor : row.cursor = none) :
    ∃ passes, (InventoryRow.run (listAliyunPage provider (some config) · credential))^[passes] row =
      { generation := row.generation + 1, state := .complete, cursor := none,
        scannedObjects := (Node.objectsOf [] children).length } := by
  obtain ⟨objects, hobjects, hperm⟩ := aliyunPages_followed hurl hdrive hselect hserves hbounded
  have hbegin : row.begin =
      some { generation := row.generation + 1, state := .scanning, cursor := none, scannedObjects := 0 } := by
    rw [InventoryRow.begin, if_neg hidle, if_pos hcursor]
  obtain ⟨passes, hpasses⟩ := InventoryRow.run_followed hobjects hbegin hcursor
  refine ⟨passes, hpasses.trans ?_⟩
  rw [Nat.zero_add, hperm.length_eq]

namespace Sample

def config : AliyunDriveConfig where
  apiBaseUrl := .ofText (utf8 "https://openapi.alipan.com")
  driveType := .ofText (utf8 "resource")
  rootFolderId := .ofText (utf8 "root")
  uploadPartBytes := 20 * 2 ^ 20

def drive : DriveInfo where
  defaultDriveId := .ofText (utf8 "1")
  resourceDriveId := .ofText (utf8 "2")
  backupDriveId := .ofText (utf8 "3")

def credential : AliyunCredential := ⟨.ofText (utf8 "token")⟩

def folderName (index : Fin 8) : Str := ⟨[0x61 + .ofNat index.val], by revert index; decide⟩

def fileName (index : Fin 8) : Str := ⟨[0x41 + .ofNat index.val], by revert index; decide⟩

def folder (index : Fin 8) : AliyunFile where
  fileId := some (folderName index)
  name := some (folderName index)
  fileName := none
  size := none
  kind := some (.ofText (utf8 "folder"))

def file (name : Str) : AliyunFile where
  fileId := some name
  name := none
  fileName := some name
  size := some 3
  kind := some (.ofText (utf8 "file"))

def lastFile : AliyunFile := file (.ofText (utf8 "last"))

/-- Eight folders and, on the second page of the root, a file; and a file in each folder. -/
def provider : Provider where
  getDriveInfo _ _ := .ok drive
  openFileList _ _ request :=
    match (List.finRange 8).find? fun index => folderName index == request.parentFileId with
    | some index => .ok ⟨[file (fileName index)], .empty⟩
    | none =>
        if request.marker.isEmpty then .ok ⟨(List.finRange 8).map folder, .ofText (utf8 "m")⟩
        else .ok ⟨[lastFile], .empty⟩

def node (index : Fin 8) : Node :=
  .folder (folder index) (by revert index; decide) (by revert index; decide)
    [.leaf (file (fileName index)) (by revert index; decide)]

def tree : List Node := (List.finRange 8).map node ++ [.leaf lastFile (by decide)]

/-- The first run and the one that follows its cursor. -/
def runs : Option (ProviderPage × Text × ProviderPage) := do
  let first ← (listAliyunPage provider (some config) none credential).toOption
  let cursor ← first.nextCursor
  let second ← (listAliyunPage provider (some config) (some cursor) credential).toOption
  some (first, cursor, second)

theorem eq_ok_of_toOption {ε α : Type} {result : Except ε α} {value : α} (h : result.toOption = some value) :
    result = .ok value := by
  cases result with
  | error => cases h
  | ok found => exact congrArg Except.ok (Option.some.inj h)

theorem runs_two : ∃ first cursor second, listAliyunPage provider (some config) none credential = .ok first ∧
    first.nextCursor = some cursor ∧ listAliyunPage provider (some config) (some cursor) credential = .ok second ∧
      second.nextCursor = none ∧ first.objects ≠ [] ∧ second.objects ≠ [] := by
  have htest : runs.any (fun pages => pages.2.2.nextCursor.isNone && pages.1.objects != [] &&
      pages.2.2.objects != []) = true := by decide +kernel
  obtain ⟨pages, hruns, htest⟩ := (Option.any_eq_true _ _).mp htest
  simp only [runs, Option.bind_eq_bind, Option.bind_eq_some_iff] at hruns
  obtain ⟨first, hfirst, cursor, hcursor, second, hsecond, hpages⟩ := hruns
  cases hpages
  simp only [Bool.and_eq_true, Option.isNone_iff_eq_none, bne_iff_ne] at htest
  exact ⟨first, cursor, second, eq_ok_of_toOption hfirst, hcursor, eq_ok_of_toOption hsecond, htest.1.1, htest.1.2,
    htest.2⟩

theorem folderPages_folder (index : Fin 8) :
    folderPages (fetchPage provider config credential (.ofText (utf8 "2"))) (folder index).id 0 none =
      .ok ([file (fileName index)], none) := by
  revert index
  decide +kernel

theorem servesNodes_folders (indices : List (Fin 8)) {rest : List Node}
    (hrest : ServesNodes (fetchPage provider config credential (.ofText (utf8 "2"))) rest) :
    ServesNodes (fetchPage provider config credential (.ofText (utf8 "2"))) (indices.map node ++ rest) := by
  induction indices with
  | nil => exact hrest
  | cons index indices ih => exact ⟨⟨.last (folderPages_folder index), trivial, trivial⟩, ih⟩

theorem serves_tree :
    Serves (fetchPage provider config credential (.ofText (utf8 "2"))) config.rootFolderId tree := by
  have hfirst : folderPages (fetchPage provider config credential (.ofText (utf8 "2"))) config.rootFolderId 0 none =
      .ok ((List.finRange 8).map folder, some (.ofText (utf8 "m"))) := by decide +kernel
  have hsecond : folderPages (fetchPage provider config credential (.ofText (utf8 "2"))) config.rootFolderId 1
      (some (.ofText (utf8 "m"))) = .ok ([lastFile], none) := by decide +kernel
  have hitems : tree.map Node.item = (List.finRange 8).map folder ++ [lastFile] := by
    rw [tree, List.map_append, List.map_map]
    rfl
  refine ⟨?_, servesNodes_folders _ ⟨trivial, trivial⟩⟩
  rw [hitems]
  exact .more hfirst (.last hsecond)

end Sample

theorem listAliyunPage_complete_sample :
    (∃ objects, Paging.Followed (aliyunPages Sample.provider (some Sample.config) Sample.credential) 0 none objects ∧
      objects.Perm (Node.objectsOf [] Sample.tree)) ∧ (Node.objectsOf [] Sample.tree).length = 9 ∧
    ∃ first cursor second left,
      listAliyunPage Sample.provider (some Sample.config) none Sample.credential = .ok first ∧
      first.nextCursor = some cursor ∧ AliyunCursor.fromStr cursor = some ⟨left⟩ ∧
      listAliyunPage Sample.provider (some Sample.config) (some cursor) Sample.credential = .ok second ∧
      first.objects ≠ [] ∧ second.objects ≠ [] := by
  obtain ⟨first, cursor, second, hfirst, hcursor, hsecond, hend, hsome, hmore⟩ := Sample.runs_two
  have hgiven (given : Option Text)
      (h : Paging.Given (aliyunPages Sample.provider (some Sample.config) Sample.credential) given) :
      given = none ∨ given = some cursor := by
    induction h with
    | start => exact .inl rfl
    | next _ hnext ih =>
        rcases ih with rfl | rfl
        · rw [aliyunPages, hfirst] at hnext
          injection hnext with hnext
          exact .inr ((congrArg Prod.snd hnext).symm.trans hcursor)
        · rw [aliyunPages, hsecond] at hnext
          injection hnext with hnext
          cases (congrArg Prod.snd hnext).symm.trans hend
  have hdrive : Sample.provider.getDriveInfo Sample.config.apiBaseUrl Sample.credential.accessToken = .ok Sample.drive := rfl
  have hselect : Sample.drive.select Sample.config.driveType = some (.ofText (utf8 "2")) := by decide +kernel
  have hcomplete := listAliyunPage_complete (by decide +kernel) hdrive hselect Sample.serves_tree fun given hgivenBy => by
    rcases hgiven given hgivenBy with rfl | rfl
    · rw [hfirst]
      exact fun heq => nomatch heq
    · rw [hsecond]
      exact fun heq => nomatch heq
  obtain ⟨_, left, _, _, hleft⟩ := hcomplete.2 none first cursor hfirst hcursor
  exact ⟨hcomplete.1, by decide +kernel, first, cursor, second, left, hfirst, hcursor, hleft, hsecond, hsome, hmore⟩

end Skydriver.DriverInventory
