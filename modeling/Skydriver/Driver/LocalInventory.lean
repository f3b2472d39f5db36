import Skydriver.Driver.Capabilities
import Skydriver.Lib.Paging
import Skydriver.Lib.Utf8

/-!
# The inventory of a local root

The objects of the local driver are the regular files below its root.  An inventory page walks the directories in the
order of their names until it has one key more than it returns, sorts what it found and returns the first ones; the last
of them is the cursor of the next page.  The walk compares keys name by name and the cursor compares them byte by byte,
so a key can be passed by while it is still out of the walk's reach.
-/

namespace Skydriver.LocalFs

open Driver (Object Locator)

/-! ### Storage keys -/

local instance byteOrder : LinearOrder UInt8 where
  le_refl := UInt8.le_refl
  le_trans _ _ _ := UInt8.le_trans
  le_antisymm _ _ := UInt8.le_antisymm
  le_total := UInt8.le_total
  toDecidableLE := inferInstance
  lt_iff_le_not_ge first second := by rw [← UInt8.not_le, iff_and_self]; exact fun h => (UInt8.le_total first second).resolve_right h

def maximumObjectBytes : Nat := 2 ^ 63 - 1 - 2 ^ 20
def maximumInventoryPage : UInt32 := 1000

def internalRoot : Text := utf8 ".skydriver"
def uploadTemporaryPrefix : Text := utf8 ".skydriver-upload-"
def deleteTemporaryPrefix : Text := utf8 ".skydriver-delete-"
def partTemporaryPrefix : Text := utf8 ".skydriver-part-"

inductive LocalError where
  /-- `inventory limit must be between 1 and 1000` -/
  | inventoryLimit
  /-- `storage key must be a canonical relative slash path` -/
  | storageKey
  /-- `storage key uses a reserved local filesystem name` -/
  | reservedName
  /-- `inspect "key"`: there is no such entry. -/
  | inspect (storageKey : Text)
  /-- `"key" is not a regular file` -/
  | notRegular (storageKey : Text)
  /-- `"key" exceeds local file limit` -/
  | fileLimit (storageKey : Text)
  /-- `inventory local filesystem object "key"`, with what inspecting it gave. -/
  | inventoryObject (storageKey : Text) (cause : LocalError)
  /-- `list local filesystem objects`, with what ended the walk. -/
  | list (cause : LocalError)
deriving DecidableEq, Repr

/-- The names that a slash path consists of. -/
def segments (storageKey : Text) : List Text := storageKey.splitOn 0x2F

/-- `path.Join` of names none of which is empty or a dot. -/
def joinSegments (path : List Text) : Text := [0x2F].intercalate path

/-- `fs.ValidPath`. -/
def validPath (name : Text) : Bool :=
  Utf8.valid name &&
    (name == utf8 "." || (segments name).all fun segment => !(segment.isEmpty || segment == utf8 "." || segment == utf8 ".."))

def isInternalSegment (segment : Text) : Bool :=
  uploadTemporaryPrefix.isPrefixOf segment || deleteTemporaryPrefix.isPrefixOf segment ||
    partTemporaryPrefix.isPrefixOf segment

def hasInternalBaseName (storageKey : Text) : Bool := (segments storageKey).any isInternalSegment

def validateStorageKey (storageKey : Text) : Except LocalError Unit :=
  if storageKey = utf8 "." ∨ validPath storageKey = false ∨ 0x5C ∈ storageKey then .error .storageKey
  else if (segments storageKey).head? = some internalRoot ∨ hasInternalBaseName storageKey = true then .error .reservedName
  else .ok ()

/-! ### The root -/

/-- What a name stands for below the root; a directory lists its entries the way `fs.ReadDir` does. -/
inductive Entry where
  | regular (content : List UInt8)
  | irregular
  | directory (entries : List (Text × Entry))

namespace Entry

def isDir : Entry → Bool
  | .directory _ => true
  | _ => false

/-- The entry that a path leads to. -/
def find (entry : Entry) : List Text → Option Entry
  | [] => some entry
  | name :: path =>
      match entry with
      | .directory entries => (entries.lookup name).bind fun child => child.find path
      | _ => none

mutual

/-- The paths of all files, in the order of the directories' lists. -/
def files : Entry → List (List Text × Entry)
  | .directory entries => filesOf entries
  | .regular content => [([], .regular content)]
  | .irregular => [([], .irregular)]

def filesOf : List (Text × Entry) → List (List Text × Entry)
  | [] => []
  | (name, child) :: rest => (files child).map (fun file => (name :: file.1, file.2)) ++ filesOf rest

end

/-- A name that a file system gives out. -/
def legalName (name : Text) : Bool :=
  !(name.isEmpty || name == utf8 "." || name == utf8 ".." || name.contains 0x2F || name.contains 0)

mutual

/-- Every directory lists legal names, each once, in the order of their bytes. -/
def orderly : Entry → Bool
  | .directory entries => decide ((entries.map Prod.fst).Pairwise (· < ·)) && orderlyEntries entries
  | _ => true

def orderlyEntries : List (Text × Entry) → Bool
  | [] => true
  | (name, child) :: rest => legalName name && orderly child && orderlyEntries rest

end

end Entry

section Inventory

variable (sha256 : List UInt8 → Digest) (root : List (Text × Entry))

def objectIdentity (storageKey : Text) (sizeBytes : UInt64) (checksum : Text) : Object :=
  let version := utf8 "sha256:" ++ checksum
  { locator := { storageKey, nativeID := version, version, etag := checksum }, sizeBytes }

/-- `Client.Stat` of a file that does not change. -/
def stat (storageKey : Text) : Except LocalError Object := do
  validateStorageKey storageKey
  match (Entry.directory root).find (segments storageKey) with
  | none => .error (.inspect storageKey)
  | some (.regular content) =>
      if maximumObjectBytes < content.length then .error (.fileLimit storageKey)
      else .ok (objectIdentity storageKey (.ofNat content.length) (hexEncode (sha256 content).1))
  | some _ => .error (.notRegular storageKey)

/-! ### Walking -/

inductive WalkError where
  | skipDir
  | inventoryPageFull
  | failed (cause : LocalError)

/-- `path.Join` of a path and the name of an entry below it. -/
def join (parent name : Text) : Text := if parent = utf8 "." then name else parent ++ 0x2F :: name

section Walk

variable {σ : Type} (visit : σ → Text → Entry → σ × Option WalkError)

mutual

/-- `fs.walkDir` -/
def walkDir (state : σ) (name : Text) : Entry → σ × Option WalkError
  | .directory entries =>
      match visit state name (.directory entries) with
      | (state, none) => walkEntries state name entries
      | (state, some .skipDir) => (state, none)
      | (state, some error) => (state, some error)
  | .regular content => visit state name (.regular content)
  | .irregular => visit state name .irregular

def walkEntries (state : σ) (parent : Text) : List (Text × Entry) → σ × Option WalkError
  | [] => (state, none)
  | (name, child) :: rest =>
      match walkDir state (join parent name) child with
      | (state, none) => walkEntries state parent rest
      | (state, some .skipDir) => (state, none)
      | (state, some error) => (state, some error)

end

end Walk

/-- What the inventory does with an entry: the keys found so far grow by the keys behind the cursor. -/
def inventoryVisit (cursor : Text) (limit : UInt32) (keys : List Text) (storageKey : Text) (entry : Entry) :
    List Text × Option WalkError :=
  if storageKey = internalRoot ∧ entry.isDir then (keys, some .skipDir)
  else if storageKey = utf8 "." ∨ entry.isDir then (keys, none)
  else if hasInternalBaseName storageKey then (keys, none)
  else
    match entry with
    | .regular _ =>
        if storageKey ≤ cursor then (keys, none)
        else if limit.toNat < (keys ++ [storageKey]).length then (keys ++ [storageKey], some .inventoryPageFull)
        else (keys ++ [storageKey], none)
    | _ => (keys, some (.failed (.notRegular storageKey)))

def inventoryKeys (cursor : Text) (limit : UInt32) : Except LocalError (List Text) :=
  match walkDir (inventoryVisit cursor limit) [] (utf8 ".") (.directory root) with
  | (_, some (.failed cause)) => .error (.list cause)
  | (keys, _) => .ok (keys.insertionSort (· ≤ ·))

def statAll (keys : List Text) : Except LocalError (List Object) :=
  keys.mapM fun storageKey => (stat sha256 root storageKey).mapError (.inventoryObject storageKey)

def lastStorageKey (objects : List Object) : Text := (objects.getLast?.map (·.locator.storageKey)).getD []

/-- The objects of a page, and the last key if there are more. -/
def inventoryPage (cursor : Text) (limit : UInt32) : Except LocalError (List Object × Text) := do
  let keys ← inventoryKeys root cursor limit
  if limit.toNat < keys.length then
    let objects ← statAll sha256 root (keys.take limit.toNat)
    .ok (objects, lastStorageKey objects)
  else
    let objects ← statAll sha256 root keys
    .ok (objects, [])

/-- `Client.List` -/
def list (cursor : Text) (limit : UInt32) : Except LocalError (List Object × Text) := do
  if limit = 0 ∨ maximumInventoryPage < limit then .error .inventoryLimit
  if cursor ≠ [] then validateStorageKey cursor
  inventoryPage sha256 root cursor limit

end Inventory

/-! ### Paths and keys -/

theorem legalName_iff {name : Text} : Entry.legalName name = true ↔
    name ≠ [] ∧ name ≠ utf8 "." ∧ name ≠ utf8 ".." ∧ 0x2F ∉ name ∧ 0 ∉ name := by
  simp [Entry.legalName, and_assoc]

theorem segments_joinSegments {path : List Text} (hpath : path ≠ []) (hlegal : ∀ name ∈ path, Entry.legalName name = true) :
    segments (joinSegments path) = path :=
  List.splitOn_intercalate 0x2F (fun name hname => (legalName_iff.mp (hlegal name hname)).2.2.2.1) hpath

theorem joinSegments_segments (storageKey : Text) : joinSegments (segments storageKey) = storageKey :=
  List.intercalate_splitOn 0x2F

theorem joinSegments_concat {path : List Text} (hpath : path ≠ []) (name : Text) :
    joinSegments (path ++ [name]) = joinSegments path ++ 0x2F :: name := by
  induction path with
  | nil => cases hpath rfl
  | cons first rest ih =>
      cases rest with
      | nil => simp [joinSegments, List.intercalate]
      | cons second rest =>
          have hrest := ih (List.cons_ne_nil second rest)
          simp only [joinSegments, List.intercalate, List.cons_append, List.intersperse_cons_cons, List.flatten_cons] at hrest ⊢
          rw [hrest]
          simp

namespace Entry

/-! ### Files in the order of the walk -/

mutual

theorem files_legal (entry : Entry) (h : orderly entry = true) : ∀ file ∈ files entry, ∀ name ∈ file.1, legalName name = true :=
  match entry with
  | .regular _ => by simp [files]
  | .irregular => by simp [files]
  | .directory entries => by
      rw [orderly, Bool.and_eq_true] at h
      exact filesOf_legal entries h.2

theorem filesOf_legal (entries : List (Text × Entry)) (h : orderlyEntries entries = true) :
    ∀ file ∈ filesOf entries, ∀ name ∈ file.1, legalName name = true :=
  match entries with
  | [] => by simp [filesOf]
  | (name, child) :: rest => by
      rw [orderlyEntries, Bool.and_eq_true, Bool.and_eq_true] at h
      intro file hfile
      rw [filesOf, List.mem_append, List.mem_map] at hfile
      rcases hfile with ⟨below, hbelow, rfl⟩ | hfile
      · rw [List.forall_mem_cons]
        exact ⟨h.1.1, files_legal child h.1.2 below hbelow⟩
      · exact filesOf_legal rest h.2 file hfile

end

theorem filesOf_head {entries : List (Text × Entry)} {file : List Text × Entry} (h : file ∈ filesOf entries) :
    ∃ name path, file.1 = name :: path ∧ name ∈ entries.map Prod.fst := by
  induction entries with
  | nil => simp [filesOf] at h
  | cons first rest ih =>
      obtain ⟨name, child⟩ := first
      rw [filesOf, List.mem_append, List.mem_map] at h
      rcases h with ⟨below, _, rfl⟩ | h
      · exact ⟨name, below.1, rfl, List.mem_cons_self⟩
      · obtain ⟨other, path, hfile, hname⟩ := ih h
        exact ⟨other, path, hfile, List.mem_cons_of_mem _ hname⟩

mutual

theorem files_pairwise (entry : Entry) (h : orderly entry = true) : ((files entry).map Prod.fst).Pairwise (· < ·) :=
  match entry with
  | .regular _ => by simp [files]
  | .irregular => by simp [files]
  | .directory entries => by
      rw [orderly, Bool.and_eq_true, decide_eq_true_eq] at h
      exact filesOf_pairwise entries h.1 h.2

theorem filesOf_pairwise (entries : List (Text × Entry)) (hnames : (entries.map Prod.fst).Pairwise (· < ·))
    (h : orderlyEntries entries = true) : ((filesOf entries).map Prod.fst).Pairwise (· < ·) :=
  match entries with
  | [] => by simp [filesOf]
  | (name, child) :: rest => by
      rw [orderlyEntries, Bool.and_eq_true, Bool.and_eq_true] at h
      rw [List.map_cons, List.pairwise_cons] at hnames
      rw [filesOf, List.map_append, List.pairwise_append, List.map_map]
      refine ⟨?_, filesOf_pairwise rest hnames.2 h.2, ?_⟩
      · have hchild := files_pairwise child h.1.2
        rw [List.pairwise_map] at hchild ⊢
        exact hchild.imp fun {left right} hlt => List.cons_lt_cons_iff.mpr (.inr ⟨rfl, hlt⟩)
      · intro left hleft right hright
        rw [List.mem_map] at hleft hright
        obtain ⟨below, _, rfl⟩ := hleft
        obtain ⟨file, hfile, rfl⟩ := hright
        obtain ⟨other, path, hpath, hother⟩ := filesOf_head hfile
        rw [hpath]
        exact List.cons_lt_cons_iff.mpr (.inl (hnames.1 other hother))

end

theorem mem_filesOf {entries : List (Text × Entry)} {file : List Text × Entry} : file ∈ filesOf entries ↔
    ∃ name child below, (name, child) ∈ entries ∧ below ∈ files child ∧ file = (name :: below.1, below.2) := by
  induction entries with
  | nil => simp [filesOf]
  | cons first rest ih =>
      obtain ⟨name, child⟩ := first
      rw [filesOf, List.mem_append, List.mem_map, ih]
      constructor
      · rintro (⟨below, hbelow, rfl⟩ | ⟨other, entry, below, hmem, hbelow, rfl⟩)
        · exact ⟨name, child, below, List.mem_cons_self, hbelow, rfl⟩
        · exact ⟨other, entry, below, List.mem_cons_of_mem _ hmem, hbelow, rfl⟩
      · rintro ⟨other, entry, below, hmem, hbelow, rfl⟩
        rcases List.mem_cons.mp hmem with heq | hmem
        · cases heq
          exact .inl ⟨below, hbelow, rfl⟩
        · exact .inr ⟨other, entry, below, hmem, hbelow, rfl⟩

theorem lookup_iff_mem {entries : List (Text × Entry)} (hnames : (entries.map Prod.fst).Nodup) {name : Text}
    {child : Entry} : entries.lookup name = some child ↔ (name, child) ∈ entries := by
  induction entries with
  | nil => simp
  | cons first rest ih =>
      obtain ⟨other, entry⟩ := first
      rw [List.map_cons, List.nodup_cons] at hnames
      rw [List.lookup_cons, List.mem_cons, Prod.mk.injEq]
      by_cases hname : name = other
      · subst hname
        have hrest : (name, child) ∉ rest := fun hmem => hnames.1 (List.mem_map.mpr ⟨_, hmem, rfl⟩)
        simp [hrest, eq_comm]
      · rw [beq_false_of_ne hname]
        simp [hname, ih hnames.2]

theorem orderly_of_mem {entries : List (Text × Entry)} (h : orderlyEntries entries = true) {name : Text} {child : Entry}
    (hmem : (name, child) ∈ entries) : legalName name = true ∧ orderly child = true := by
  induction entries with
  | nil => cases hmem
  | cons first rest ih =>
      obtain ⟨other, entry⟩ := first
      rw [orderlyEntries, Bool.and_eq_true, Bool.and_eq_true] at h
      rcases List.mem_cons.mp hmem with heq | hmem
      · cases heq
        exact h.1
      · exact ih h.2 hmem

theorem mem_files_iff {entry : Entry} (h : orderly entry = true) {path : List Text} {file : Entry} :
    (path, file) ∈ files entry ↔ entry.find path = some file ∧ file.isDir = false := by
  induction path generalizing entry with
  | nil =>
      have hself : (([] : List Text), file) ∈ [([], entry)] ↔ some entry = some file := by
        rw [List.mem_singleton, Prod.mk.injEq, Option.some.injEq, eq_comm (a := entry)]
        exact and_iff_right rfl
      rw [find]
      cases entry with
      | regular content =>
          rw [files, hself]
          exact ⟨fun heq => ⟨heq, by cases heq; rfl⟩, And.left⟩
      | irregular =>
          rw [files, hself]
          exact ⟨fun heq => ⟨heq, by cases heq; rfl⟩, And.left⟩
      | directory entries =>
          constructor
          · intro hmem
            rw [files, mem_filesOf] at hmem
            obtain ⟨_, _, _, _, _, heq⟩ := hmem
            cases heq
          · rintro ⟨heq, hdir⟩
            cases heq
            cases hdir
  | cons name path ih =>
      cases entry with
      | regular content => simp [files, find]
      | irregular => simp [files, find]
      | directory entries =>
          rw [orderly, Bool.and_eq_true, decide_eq_true_eq] at h
          have hnames : (entries.map Prod.fst).Nodup := h.1.imp fun {left right} hlt => ne_of_lt hlt
          rw [files, mem_filesOf, find]
          constructor
          · rintro ⟨_, child, below, hmem, hbelow, heq⟩
            cases heq
            rw [(lookup_iff_mem hnames).mpr hmem, Option.bind_some]
            exact (ih (orderly_of_mem h.2 hmem).2).mp hbelow
          · rintro ⟨hfind, hdir⟩
            obtain ⟨child, hlookup, hchild⟩ := Option.bind_eq_some_iff.mp hfind
            have hmem := (lookup_iff_mem hnames).mp hlookup
            exact ⟨name, child, (path, file), hmem, (ih (orderly_of_mem h.2 hmem).2).mpr ⟨hchild, hdir⟩, rfl⟩

end Entry

/-! ### Stored objects -/

/-- The driver's own files: what lies in its directory or bears one of its names. -/
def hidden (path : List Text) : Bool :=
  (path.head? == some internalRoot && decide (1 < path.length)) || path.any isInternalSegment

/-- The other files of a root. -/
def storedFiles (root : List (Text × Entry)) : List (List Text × Entry) :=
  (Entry.filesOf root).filter fun file => !hidden file.1

def storedKeys (root : List (Text × Entry)) : List Text := (storedFiles root).map fun file => joinSegments file.1

/-- A file that can be an object: a regular one under an admissible key, and not too large. -/
def isObject (file : List Text × Entry) : Bool :=
  match file.2 with
  | .regular content => decide (content.length ≤ maximumObjectBytes) && (validateStorageKey (joinSegments file.1)).isOk
  | _ => false

structure ObjectRoot (root : List (Text × Entry)) : Prop where
  orderly : (Entry.directory root).orderly = true
  isObject : (storedFiles root).all isObject = true

/-! ### The walk as a scan -/

/-- The keys behind a cursor, one after the other until there is one more than a page holds. -/
def scan (cursor : Text) (limit : UInt32) (keys : List Text) : List Text → List Text × Option WalkError
  | [] => (keys, none)
  | storageKey :: rest =>
      if storageKey ≤ cursor then scan cursor limit keys rest
      else if limit.toNat < (keys ++ [storageKey]).length then (keys ++ [storageKey], some .inventoryPageFull)
      else scan cursor limit (keys ++ [storageKey]) rest

theorem scan_append (cursor : Text) (limit : UInt32) (keys front back : List Text) :
    scan cursor limit keys (front ++ back) =
      match scan cursor limit keys front with
      | (keys, none) => scan cursor limit keys back
      | full => full := by
  induction front generalizing keys with
  | nil => rfl
  | cons storageKey rest ih =>
      simp only [List.cons_append, scan]
      split_ifs with hpassed hfull
      · exact ih keys
      · rfl
      · exact ih _

theorem scan_error {cursor : Text} {limit : UInt32} {keys rest found : List Text} {error : WalkError}
    (h : scan cursor limit keys rest = (found, some error)) : error = .inventoryPageFull := by
  induction rest generalizing keys with
  | nil => cases h
  | cons storageKey rest ih =>
      rw [scan] at h
      split_ifs at h
      · exact ih h
      · cases h
        rfl
      · exact ih h

def walkName (path : List Text) : Text := if path = [] then utf8 "." else joinSegments path

variable {path : List Text}

theorem joinSegments_ne {path other : List Text} (hpath : path ≠ []) (hlegal : ∀ name ∈ path, Entry.legalName name = true)
    {text : Text} (htext : segments text = other) (hne : path ≠ other) : joinSegments path ≠ text := by
  rintro rfl
  rw [segments_joinSegments hpath hlegal] at htext
  exact hne htext

theorem joinSegments_ne_dot (hpath : path ≠ []) (hlegal : ∀ name ∈ path, Entry.legalName name = true) :
    joinSegments path ≠ utf8 "." := by
  have hdots : segments (utf8 ".") = [utf8 "."] := by decide
  refine joinSegments_ne hpath hlegal hdots ?_
  rintro rfl
  have hdot := hlegal (utf8 ".") List.mem_cons_self
  exact absurd hdot (by decide)

theorem join_walkName (hlegal : ∀ name ∈ path, Entry.legalName name = true) (name : Text) :
    join (walkName path) name = walkName (path ++ [name]) := by
  have hconcat : path ++ [name] ≠ [] := List.append_ne_nil_of_right_ne_nil _ (List.cons_ne_nil _ _)
  rw [walkName, walkName, if_neg hconcat, join]
  by_cases hpath : path = []
  · rw [if_pos hpath, if_pos rfl, hpath]
    simp [joinSegments, List.intercalate]
  · rw [if_neg hpath, if_neg (joinSegments_ne_dot hpath hlegal), joinSegments_concat hpath name]

/-- The keys of the stored files among those below a path. -/
def keysBelow (path : List Text) (files : List (List Text × Entry)) : List Text :=
  ((files.map fun file => path ++ file.1).filter fun path => !hidden path).map joinSegments

theorem keysBelow_append (front back : List (List Text × Entry)) :
    keysBelow path (front ++ back) = keysBelow path front ++ keysBelow path back := by
  simp only [keysBelow, List.map_append, List.filter_append]

theorem keysBelow_map_cons (name : Text) (files : List (List Text × Entry)) :
    keysBelow path (files.map fun file => (name :: file.1, file.2)) = keysBelow (path ++ [name]) files := by
  simp only [keysBelow, List.map_map, Function.comp_def, List.append_assoc, List.cons_append, List.nil_append]

theorem keysBelow_internal (entries : List (Text × Entry)) : keysBelow [internalRoot] (Entry.filesOf entries) = [] := by
  rw [keysBelow, List.map_eq_nil_iff, List.filter_eq_nil_iff]
  intro path hpath
  obtain ⟨file, hfile, rfl⟩ := List.mem_map.mp hpath
  obtain ⟨name, below, hname, _⟩ := Entry.filesOf_head hfile
  simp [hidden, hname]

section Visit

variable {cursor : Text} {limit : UInt32}

theorem hasInternalBaseName_joinSegments (hpath : path ≠ []) (hlegal : ∀ name ∈ path, Entry.legalName name = true) :
    hasInternalBaseName (joinSegments path) = path.any isInternalSegment := by
  rw [hasInternalBaseName, segments_joinSegments hpath hlegal]

theorem segments_internalRoot : segments internalRoot = [internalRoot] := by decide

theorem inventoryVisit_directory (hpath : path ≠ []) (hlegal : ∀ name ∈ path, Entry.legalName name = true)
    (keys : List Text) (entries : List (Text × Entry)) :
    inventoryVisit cursor limit keys (joinSegments path) (.directory entries) =
      (keys, if path = [internalRoot] then some .skipDir else none) := by
  unfold inventoryVisit
  by_cases hinternal : path = [internalRoot]
  · have hkey : joinSegments path = internalRoot := by rw [hinternal, ← segments_internalRoot, joinSegments_segments]
    rw [if_pos ⟨hkey, rfl⟩, if_pos hinternal]
  · have hkey := joinSegments_ne hpath hlegal segments_internalRoot hinternal
    rw [if_neg fun h => hkey h.1, if_pos (.inr rfl), if_neg hinternal]

theorem inventoryVisit_file (hpath : path ≠ []) (hlegal : ∀ name ∈ path, Entry.legalName name = true)
    (hroot : path.head? ≠ some internalRoot ∨ path.length = 1) (keys : List Text) {file : Entry}
    (hfile : file.isDir = false) (hobject : hidden path = false → isObject (path, file) = true) :
    inventoryVisit cursor limit keys (joinSegments path) file = scan cursor limit keys (keysBelow path [([], file)]) := by
  have hhidden : hidden path = path.any isInternalSegment := by
    rw [hidden, Bool.or_eq_right_iff_imp, Bool.and_eq_true, beq_iff_eq, decide_eq_true_eq]
    rintro ⟨hhead, hlength⟩
    rcases hroot with hne | hone
    · exact absurd hhead hne
    · omega
  have hbelow : keysBelow path [([], file)] = if hidden path then [] else [joinSegments path] := by
    simp only [keysBelow, List.map_cons, List.map_nil, List.append_nil, List.filter_cons, List.filter_nil]
    cases hidden path with
    | true => rfl
    | false => rfl
  have hdot := joinSegments_ne_dot hpath hlegal
  unfold inventoryVisit
  rw [if_neg (by simp [hfile]), if_neg (by simp [hdot, hfile]),
    hasInternalBaseName_joinSegments hpath hlegal, ← hhidden, hbelow]
  cases hcase : hidden path with
  | true => rfl
  | false =>
      have h := hobject hcase
      cases file with
      | regular content =>
          rw [if_neg Bool.false_ne_true, if_neg Bool.false_ne_true, scan, scan, scan]
      | irregular => cases h
      | directory entries => cases h

mutual

theorem walkDir_eq (entry : Entry) (horderly : entry.orderly = true) (path : List Text) (name : Text)
    (hlegal : ∀ name ∈ path, Entry.legalName name = true) (hname : Entry.legalName name = true)
    (hroot : path.head? ≠ some internalRoot)
    (hobjects : ∀ file ∈ entry.files, hidden (path ++ name :: file.1) = false →
      isObject (path ++ name :: file.1, file.2) = true) (keys : List Text) :
    walkDir (inventoryVisit cursor limit) keys (joinSegments (path ++ [name])) entry =
      scan cursor limit keys (keysBelow (path ++ [name]) entry.files) := by
  have hpath : path ++ [name] ≠ [] := List.append_ne_nil_of_right_ne_nil _ (List.cons_ne_nil _ _)
  have hnames : ∀ other ∈ path ++ [name], Entry.legalName other = true := by
    rw [List.forall_mem_append, List.forall_mem_singleton]
    exact ⟨hlegal, hname⟩
  have hhead : (path ++ [name]).head? ≠ some internalRoot ∨ (path ++ [name]).length = 1 := by
    cases path with
    | nil => exact .inr rfl
    | cons first rest => exact .inl hroot
  match entry with
  | .regular content =>
      rw [Entry.files, List.forall_mem_singleton] at hobjects
      exact inventoryVisit_file hpath hnames hhead keys rfl hobjects
  | .irregular =>
      rw [Entry.files, List.forall_mem_singleton] at hobjects
      exact inventoryVisit_file hpath hnames hhead keys rfl hobjects
  | .directory entries =>
      rw [walkDir, inventoryVisit_directory hpath hnames, Entry.files]
      by_cases hinternal : path ++ [name] = [internalRoot]
      · rw [if_pos hinternal, hinternal, keysBelow_internal]
        rfl
      · rw [if_neg hinternal]
        dsimp only
        rw [Entry.orderly, Bool.and_eq_true] at horderly
        have hwalk := walkEntries_eq entries horderly.2 (path ++ [name]) hnames ?_ ?_ keys
        · rwa [walkName, if_neg hpath] at hwalk
        · cases path with
          | nil =>
              rw [List.nil_append, List.head?_cons, Ne, Option.some.injEq]
              intro heq
              exact hinternal (heq ▸ rfl)
          | cons first rest => exact hroot
        · intro file hfile
          rw [List.append_assoc]
          exact hobjects file hfile

theorem walkEntries_eq (entries : List (Text × Entry)) (horderly : Entry.orderlyEntries entries = true) (path : List Text)
    (hlegal : ∀ name ∈ path, Entry.legalName name = true) (hroot : path.head? ≠ some internalRoot)
    (hobjects : ∀ file ∈ Entry.filesOf entries, hidden (path ++ file.1) = false → isObject (path ++ file.1, file.2) = true)
    (keys : List Text) :
    walkEntries (inventoryVisit cursor limit) keys (walkName path) entries =
      scan cursor limit keys (keysBelow path (Entry.filesOf entries)) :=
  match entries with
  | [] => rfl
  | (name, child) :: rest => by
      rw [Entry.orderlyEntries, Bool.and_eq_true, Bool.and_eq_true] at horderly
      rw [Entry.filesOf] at hobjects
      have hconcat : path ++ [name] ≠ [] := List.append_ne_nil_of_right_ne_nil _ (List.cons_ne_nil _ _)
      have hchild := walkDir_eq child horderly.1.2 path name hlegal horderly.1.1 hroot
        (fun file hfile => hobjects _ (List.mem_append_left _ (List.mem_map_of_mem hfile))) keys
      have hrest := walkEntries_eq rest horderly.2 path hlegal hroot
        fun file hfile => hobjects file (List.mem_append_right _ hfile)
      rw [walkEntries, join_walkName hlegal, walkName, if_neg hconcat, hchild, Entry.filesOf, keysBelow_append,
        keysBelow_map_cons, scan_append]
      rcases hscan : scan cursor limit keys (keysBelow (path ++ [name]) child.files) with ⟨found, _ | error⟩
      · exact hrest found
      · rw [scan_error hscan]

end

theorem scan_keys (keys rest : List Text) (hlength : keys.length ≤ limit.toNat) :
    (scan cursor limit keys rest).1 =
      keys ++ (rest.filter (Paging.behind (some cursor))).take (limit.toNat + 1 - keys.length) := by
  induction rest generalizing keys with
  | nil => simp [scan]
  | cons storageKey rest ih =>
      rw [scan]
      by_cases hpassed : storageKey ≤ cursor
      · rw [if_pos hpassed, ih keys hlength, List.filter_cons_of_neg]
        rw [Paging.behind_some_iff]
        exact hpassed.not_gt
      · rw [if_neg hpassed, List.filter_cons_of_pos (Paging.behind_some_iff.mpr (not_le.mp hpassed))]
        have hsucc : limit.toNat + 1 - keys.length = (limit.toNat - keys.length) + 1 := by omega
        rw [hsucc, List.take_succ_cons, List.length_append, List.length_singleton]
        split_ifs with hfull
        · have hzero : limit.toNat - keys.length = 0 := by omega
          rw [hzero, List.take_zero]
        · rw [ih _ (by rw [List.length_append, List.length_singleton]; omega), List.length_append, List.length_singleton,
            List.append_assoc, Nat.add_sub_add_right]
          rfl

end Visit

/-! ### Pages of a root -/

section Pages

variable {sha256 : List UInt8 → Digest} {root : List (Text × Entry)} (hroot : ObjectRoot root)

include hroot

theorem storedFiles_legal {file : List Text × Entry} (hfile : file ∈ storedFiles root) :
    file.1 ≠ [] ∧ ∀ name ∈ file.1, Entry.legalName name = true := by
  have hmem := List.mem_of_mem_filter hfile
  have horderly := hroot.orderly
  rw [Entry.orderly, Bool.and_eq_true] at horderly
  obtain ⟨name, path, hpath, _⟩ := Entry.filesOf_head hmem
  exact ⟨hpath ▸ List.cons_ne_nil name path, Entry.filesOf_legal root horderly.2 file hmem⟩

theorem inventoryKeys_eq (cursor : Text) (limit : UInt32) : inventoryKeys root cursor limit =
    .ok (Paging.sorted (((storedKeys root).filter (Paging.behind (some cursor))).take (limit.toNat + 1))) := by
  have horderly := hroot.orderly
  rw [Entry.orderly, Bool.and_eq_true] at horderly
  have hobjects : ∀ file ∈ Entry.filesOf root, hidden ([] ++ file.1) = false → isObject ([] ++ file.1, file.2) = true := by
    intro file hfile hvisible
    refine List.all_eq_true.mp hroot.isObject file (List.mem_filter.mpr ⟨hfile, ?_⟩)
    rw [List.nil_append] at hvisible
    rw [hvisible]
    rfl
  have hwalk : walkEntries (inventoryVisit cursor limit) [] (walkName []) root =
      scan cursor limit [] (keysBelow [] (Entry.filesOf root)) :=
    walkEntries_eq root horderly.2 [] (by simp) (by simp) hobjects []
  have hkeys : keysBelow [] (Entry.filesOf root) = storedKeys root := by
    simp only [keysBelow, storedKeys, storedFiles, List.nil_append, List.filter_map, List.map_map, Function.comp_def]
  have hfound : (scan cursor limit [] (storedKeys root)).1 = _ := scan_keys [] (storedKeys root) (Nat.zero_le _)
  rw [hkeys, walkName, if_pos rfl] at hwalk
  have hvisit : inventoryVisit cursor limit [] (utf8 ".") (.directory root) = ([], none) := by
    unfold inventoryVisit
    rw [if_neg fun h => absurd h.1 (by decide), if_pos (.inl rfl)]
  rw [inventoryKeys, walkDir, hvisit]
  dsimp only
  rw [hwalk]
  rw [List.nil_append, List.length_nil, Nat.sub_zero] at hfound
  rcases hscan : scan cursor limit [] (storedKeys root) with ⟨found, _ | error⟩
  · rw [hscan] at hfound
    rw [← hfound]
    rfl
  · rw [hscan] at hfound
    rw [scan_error hscan, ← hfound]
    rfl

/-- The keys of a root are admissible, and inspecting one gives the object stored there. -/
theorem stat_of_stored {storageKey : Text} (hkey : storageKey ∈ storedKeys root) :
    validateStorageKey storageKey = .ok () ∧ ∃ content, (Entry.directory root).find (segments storageKey) =
      some (.regular content) ∧ content.length ≤ maximumObjectBytes := by
  obtain ⟨file, hfile, rfl⟩ := List.mem_map.mp hkey
  obtain ⟨hpath, hlegal⟩ := storedFiles_legal hroot hfile
  have hobject := List.all_eq_true.mp hroot.isObject file hfile
  have hmem : file ∈ (Entry.directory root).files := List.mem_of_mem_filter hfile
  obtain ⟨hfind, _⟩ := (Entry.mem_files_iff hroot.orderly).mp hmem
  rw [segments_joinSegments hpath hlegal, hfind]
  obtain ⟨path, entry⟩ := file
  cases entry with
  | irregular => cases hobject
  | directory entries => cases hobject
  | regular content =>
      rw [isObject, Bool.and_eq_true, decide_eq_true_eq] at hobject
      refine ⟨?_, content, rfl, hobject.1⟩
      cases hvalid : validateStorageKey (joinSegments path) with
      | ok _ => rfl
      | error failure =>
          rw [hvalid] at hobject
          cases hobject.2

theorem mem_storedKeys_iff {storageKey : Text} : storageKey ∈ storedKeys root ↔
    validateStorageKey storageKey = .ok () ∧
      ∃ content, (Entry.directory root).find (segments storageKey) = some (.regular content) := by
  constructor
  · intro hkey
    obtain ⟨hvalid, content, hfind, _⟩ := stat_of_stored hroot hkey
    exact ⟨hvalid, content, hfind⟩
  · rintro ⟨hvalid, content, hfind⟩
    have hmem := (Entry.mem_files_iff hroot.orderly).mpr ⟨hfind, rfl⟩
    refine List.mem_map.mpr ⟨(segments storageKey, .regular content), List.mem_filter.mpr ⟨hmem, ?_⟩,
      joinSegments_segments storageKey⟩
    rw [validateStorageKey] at hvalid
    split_ifs at hvalid with hpath hreserved
    rw [not_or] at hreserved
    rw [hidden, Bool.not_eq_true', Bool.or_eq_false_iff, Bool.and_eq_false_imp, beq_iff_eq]
    exact ⟨fun hhead => absurd hhead hreserved.1, Bool.eq_false_of_not_eq_true hreserved.2⟩

omit hroot in
variable (sha256 root) in
def objectAt (storageKey : Text) : Object :=
  match (Entry.directory root).find (segments storageKey) with
  | some (.regular content) => objectIdentity storageKey (.ofNat content.length) (hexEncode (sha256 content).1)
  | _ => objectIdentity storageKey 0 []

omit hroot in
@[simp] theorem objectAt_storageKey (storageKey : Text) : (objectAt sha256 root storageKey).locator.storageKey = storageKey := by
  unfold objectAt
  split <;> rfl

theorem stat_eq {storageKey : Text} (hkey : storageKey ∈ storedKeys root) :
    stat sha256 root storageKey = .ok (objectAt sha256 root storageKey) := by
  obtain ⟨hvalid, content, hfind, hlength⟩ := stat_of_stored hroot hkey
  rw [stat, hvalid, objectAt, hfind]
  exact if_neg hlength.not_gt

theorem statAll_eq {keys : List Text} (hkeys : ∀ key ∈ keys, key ∈ storedKeys root) :
    statAll sha256 root keys = .ok (keys.map (objectAt sha256 root)) := by
  induction keys with
  | nil => rfl
  | cons storageKey rest ih =>
      rw [List.forall_mem_cons] at hkeys
      have hrest := ih hkeys.2
      rw [statAll] at hrest ⊢
      rw [List.mapM_cons, stat_eq hroot hkeys.1, hrest]
      rfl

omit hroot in
theorem lastStorageKey_map (keys : List Text) : lastStorageKey (keys.map (objectAt sha256 root)) = keys.getLast?.getD [] := by
  rw [lastStorageKey, List.getLast?_map, Option.map_map]
  have hkey : (fun object : Object => object.locator.storageKey) ∘ objectAt sha256 root = id :=
    funext fun storageKey => objectAt_storageKey storageKey
  rw [hkey, Option.map_id, id]

theorem storedKeys_ne_nil {storageKey : Text} (hkey : storageKey ∈ storedKeys root) : storageKey ≠ [] := by
  rintro rfl
  have hvalid := (stat_of_stored hroot hkey).1
  exact absurd hvalid (by decide)

theorem behind_getD (cursor : Option Text) : (storedKeys root).filter (Paging.behind (some (cursor.getD []))) =
    (storedKeys root).filter (Paging.behind cursor) := by
  cases cursor with
  | some last => rfl
  | none =>
      refine List.filter_congr fun storageKey hkey => ?_
      rw [Option.getD_none, Paging.behind_none, Paging.behind_some_iff]
      obtain ⟨byte, rest, rfl⟩ := List.exists_cons_of_ne_nil (storedKeys_ne_nil hroot hkey)
      exact List.nil_lt_cons byte rest

theorem inventoryPage_eq (limit : UInt32) (cursor : Option Text) : inventoryPage sha256 root (cursor.getD []) limit =
    .ok ((Paging.scanPage (storedKeys root) limit.toNat cursor).1.map (objectAt sha256 root),
      (Paging.scanPage (storedKeys root) limit.toNat cursor).2.getD []) := by
  have hkeys := inventoryKeys_eq hroot (cursor.getD []) limit
  have hstored {key : Text} (hkey : key ∈ (Paging.scanPage (storedKeys root) limit.toNat cursor).1) :
      key ∈ storedKeys root := Paging.mem_of_mem_scanPage hkey
  rw [behind_getD hroot] at hkeys
  rw [Paging.scanPage] at hstored ⊢
  rw [inventoryPage, hkeys]
  simp only [bind, Except.bind]
  split_ifs at hstored ⊢ with hmore
  · rw [statAll_eq hroot fun key hkey => hstored hkey]
    dsimp only
    rw [lastStorageKey_map]
  · rw [statAll_eq hroot fun key hkey => hstored hkey]
    rfl

theorem list_eq {limit : UInt32} (hlimit : limit ≠ 0) (hmaximum : limit ≤ maximumInventoryPage) {cursor : Option Text}
    (hcursor : ∀ key ∈ cursor, key ∈ storedKeys root) : list sha256 root (cursor.getD []) limit =
      .ok ((Paging.scanPage (storedKeys root) limit.toNat cursor).1.map (objectAt sha256 root),
        (Paging.scanPage (storedKeys root) limit.toNat cursor).2.getD []) := by
  have hbounds : ¬(limit = 0 ∨ maximumInventoryPage < limit) := by
    rw [not_or]
    exact ⟨hlimit, UInt32.not_lt.mpr hmaximum⟩
  rw [← inventoryPage_eq hroot limit cursor, list, if_neg hbounds]
  cases cursor with
  | none => rfl
  | some last =>
      have hlast := hcursor last rfl
      have hvalid := (stat_of_stored hroot hlast).1
      rw [Option.getD_some]
      dsimp only
      rw [if_pos (storedKeys_ne_nil hroot hlast), hvalid]
      rfl

end Pages

/-! ### The whole inventory -/

/-- An object of a root: the content of a regular file under an admissible key. -/
def Stored (sha256 : List UInt8 → Digest) (root : List (Text × Entry)) (object : Object) : Prop :=
  ∃ storageKey content, validateStorageKey storageKey = .ok () ∧
    (Entry.directory root).find (segments storageKey) = some (.regular content) ∧
    object = objectIdentity storageKey (.ofNat content.length) (hexEncode (sha256 content).1)

/-- A key that names one of the driver's own files. -/
def Reserved (storageKey : Text) : Prop :=
  (segments storageKey).head? = some internalRoot ∨ ∃ segment ∈ segments storageKey,
    uploadTemporaryPrefix <+: segment ∨ deleteTemporaryPrefix <+: segment ∨ partTemporaryPrefix <+: segment

/-- Each object exactly once, in the order of the keys, and none of the driver's own files. -/
structure Complete (sha256 : List UInt8 → Digest) (root : List (Text × Entry)) (objects : List Object) : Prop where
  ordered : objects.Pairwise fun left right => left.locator.storageKey < right.locator.storageKey
  stored : ∀ object, object ∈ objects ↔ Stored sha256 root object
  unreserved : ∀ object ∈ objects, ¬Reserved object.locator.storageKey

/-- The pages of a root that does not change; no cursor and the empty one are the same. -/
def pages (sha256 : List UInt8 → Digest) (root : List (Text × Entry)) (limits : Nat → UInt32) (number : Nat)
    (cursor : Option Text) : Except LocalError (List Object × Option Text) :=
  (list sha256 root (cursor.getD []) (limits number)).map fun found =>
    (found.1, if found.2 = [] then none else some found.2)

/-- Following the cursors from the start on, with these limits, leads through the whole inventory. -/
def ListsAll (sha256 : List UInt8 → Digest) (root : List (Text × Entry)) (limits : Nat → UInt32) : Prop :=
  ∃ objects, Paging.Followed (pages sha256 root limits) 0 none objects ∧ Complete sha256 root objects

/-- A key that the walk meets before another: its names come first, compared one by one. -/
def WalkedBefore (left right : Text) : Prop := segments left < segments right

instance : DecidableRel WalkedBefore := fun left right => inferInstanceAs (Decidable (segments left < segments right))

instance : Std.Asymm WalkedBefore := ⟨fun _ _ hforward hbackward => lt_asymm hforward hbackward⟩

def ValidLimits (limits : Nat → UInt32) : Prop := ∀ number, limits number ≠ 0 ∧ limits number ≤ maximumInventoryPage

section Whole

variable {sha256 : List UInt8 → Digest} {root : List (Text × Entry)} (hroot : ObjectRoot root)

include hroot

theorem storedKeys_pairwise : (storedKeys root).Pairwise WalkedBefore := by
  have horderly := hroot.orderly
  have hpaths := Entry.files_pairwise _ horderly
  rw [List.pairwise_map] at hpaths
  rw [storedKeys, List.pairwise_map]
  refine ((hpaths.sublist List.filter_sublist).imp_of_mem ?_)
  intro left right hleft hright hlt
  obtain ⟨hpath, hlegal⟩ := storedFiles_legal hroot hleft
  obtain ⟨hpath', hlegal'⟩ := storedFiles_legal hroot hright
  rw [WalkedBefore, segments_joinSegments hpath hlegal, segments_joinSegments hpath' hlegal']
  exact hlt

theorem stored_iff {object : Object} :
    Stored sha256 root object ↔ ∃ storageKey ∈ storedKeys root, objectAt sha256 root storageKey = object := by
  constructor
  · rintro ⟨storageKey, content, hvalid, hfind, rfl⟩
    exact ⟨storageKey, (mem_storedKeys_iff hroot).mpr ⟨hvalid, content, hfind⟩, by rw [objectAt, hfind]⟩
  · rintro ⟨storageKey, hkey, rfl⟩
    obtain ⟨hvalid, content, hfind⟩ := (mem_storedKeys_iff hroot).mp hkey
    exact ⟨storageKey, content, hvalid, hfind, by rw [objectAt, hfind]⟩

omit hroot in
theorem not_reserved_of_valid {storageKey : Text} (hvalid : validateStorageKey storageKey = .ok ()) : ¬Reserved storageKey := by
  rw [validateStorageKey] at hvalid
  split_ifs at hvalid with hpath hreserved
  rw [not_or, hasInternalBaseName, List.any_eq_true] at hreserved
  rintro (hhead | ⟨segment, hmem, hinternal⟩)
  · exact hreserved.1 hhead
  · refine hreserved.2 ⟨segment, hmem, ?_⟩
    rw [isInternalSegment, Bool.or_eq_true, Bool.or_eq_true, List.isPrefixOf_iff_prefix, List.isPrefixOf_iff_prefix,
      List.isPrefixOf_iff_prefix, or_assoc]
    exact hinternal

theorem complete_map_iff {keys : List Text} :
    Complete sha256 root (keys.map (objectAt sha256 root)) ↔ keys = Paging.sorted (storedKeys root) := by
  have hnodup := Paging.nodup_of_pairwise (storedKeys_pairwise hroot)
  constructor
  · intro hcomplete
    have hordered := hcomplete.ordered
    simp only [List.pairwise_map, objectAt_storageKey] at hordered
    refine (Paging.sorted_eq_of_perm hordered ((List.perm_ext_iff_of_nodup hnodup (hordered.imp ne_of_lt)).mpr ?_)).symm
    intro storageKey
    constructor
    · intro hkey
      have hobject := (hcomplete.stored _).mpr ((stored_iff hroot).mpr ⟨storageKey, hkey, rfl⟩)
      obtain ⟨other, hother, heq⟩ := List.mem_map.mp hobject
      have hsame := congrArg (fun object : Object => object.locator.storageKey) heq
      simp only [objectAt_storageKey] at hsame
      exact hsame ▸ hother
    · intro hkey
      obtain ⟨other, hother, heq⟩ := (stored_iff hroot).mp ((hcomplete.stored _).mp (List.mem_map_of_mem hkey))
      have hsame := congrArg (fun object : Object => object.locator.storageKey) heq
      simp only [objectAt_storageKey] at hsame
      exact hsame ▸ hother
  · rintro rfl
    have hstored {object : Object} :
        object ∈ (Paging.sorted (storedKeys root)).map (objectAt sha256 root) ↔ Stored sha256 root object := by
      simp only [List.mem_map, Paging.mem_sorted, stored_iff hroot]
    refine ⟨?_, fun object => hstored, fun object hobject => ?_⟩
    · simp only [List.pairwise_map, objectAt_storageKey]
      exact Paging.sorted_pairwise hnodup
    · obtain ⟨storageKey, content, hvalid, _, rfl⟩ := hstored.mp hobject
      exact not_reserved_of_valid hvalid

theorem listsAll_iff_followed {limits : Nat → UInt32} (hlimits : ValidLimits limits) : ListsAll sha256 root limits ↔
    Paging.Followed (Paging.scanPages (fun number => (limits number).toNat) LocalError (storedKeys root)) 0 none
      (Paging.sorted (storedKeys root)) := by
  have hfollowed {objects : List Object} : Paging.Followed (pages sha256 root limits) 0 none objects ↔
      ∃ keys, Paging.Followed (Paging.scanPages (fun number => (limits number).toNat) LocalError (storedKeys root)) 0 none
        keys ∧ objects = keys.map (objectAt sha256 root) := by
    refine Paging.followed_map_iff (objectAt sha256 root) (fun cursor => ∀ key ∈ cursor, key ∈ storedKeys root) ?_ ?_ ?_
    · intro number cursor hcursor
      rw [pages, list_eq hroot (hlimits number).1 (hlimits number).2 hcursor, Paging.scanPages, Except.map, Except.map,
        Except.ok.injEq, Prod.mk.injEq]
      refine ⟨rfl, ?_⟩
      cases hnext : (Paging.scanPage (storedKeys root) (limits number).toNat cursor).2 with
      | none => rfl
      | some next => exact if_neg (storedKeys_ne_nil hroot (Paging.mem_of_scanPage_cursor hnext))
    · intro number cursor found _ hfound key hkey
      cases hfound
      exact Paging.mem_of_scanPage_cursor hkey
    · intro key hkey
      cases hkey
  constructor
  · rintro ⟨objects, hobjects, hcomplete⟩
    obtain ⟨keys, hkeys, rfl⟩ := hfollowed.mp hobjects
    exact (complete_map_iff hroot).mp hcomplete ▸ hkeys
  · intro hkeys
    exact ⟨_, hfollowed.mpr ⟨_, hkeys, rfl⟩, (complete_map_iff hroot).mpr rfl⟩

theorem listsAll_iff_pageFits {limits : Nat → UInt32} (hlimits : ValidLimits limits) : ListsAll sha256 root limits ↔
    ∀ number, Paging.PageFits WalkedBefore (fun number => (limits number).toNat) (storedKeys root) number := by
  rw [listsAll_iff_followed hroot hlimits]
  refine Paging.followed_scan_iff (storedKeys_pairwise hroot) fun number => ?_
  exact Nat.pos_of_ne_zero fun hzero => (hlimits number).1 (UInt32.toNat_inj.mp hzero)

/-- With given limits the inventory is complete exactly if no object that belongs on a page has more objects of this page
or behind it in front of it in the walk than the page holds; and with all limits exactly if no object has two objects with
larger keys in front of it. -/
theorem listsAll_iff :
    (∀ limits, ValidLimits limits → (ListsAll sha256 root limits ↔
      ∀ number, Paging.PageFits WalkedBefore (fun number => (limits number).toNat) (storedKeys root) number)) ∧
    ((∀ limits, ValidLimits limits → ListsAll sha256 root limits) ↔
      ∀ storageKey ∈ storedKeys root, Paging.largerInFront WalkedBefore (storedKeys root) storageKey ≤ 1) := by
  have hscan := storedKeys_pairwise hroot
  have heach (limits : Nat → UInt32) (hlimits : ValidLimits limits) :=
    @listsAll_iff_pageFits sha256 root hroot limits hlimits
  refine ⟨heach, ?_⟩
  have hmaximum : 0 < maximumInventoryPage.toNat := by decide
  rw [← Paging.pageFits_all_iff hscan hmaximum]
  constructor
  · intro hall limits hlimits
    have htoNat (number : Nat) : (UInt32.ofNat (limits number)).toNat = limits number :=
      UInt32.toNat_ofNat_of_lt ((hlimits number).2.trans_lt (by decide))
    have hvalid : ValidLimits fun number => .ofNat (limits number) := by
      intro number
      refine ⟨fun hzero => ?_, ?_⟩
      · have hpositive := (hlimits number).1
        have hlimit := htoNat number
        rw [show UInt32.ofNat (limits number) = 0 from hzero, UInt32.toNat_zero] at hlimit
        omega
      · rw [UInt32.le_iff_toNat_le, htoNat]
        exact (hlimits number).2
    have hfits := (heach _ hvalid).mp (hall _ hvalid)
    simpa only [htoNat] using hfits
  · intro hfits limits hlimits
    refine (heach limits hlimits).mpr (hfits _ fun number => ?_)
    exact ⟨Nat.pos_of_ne_zero fun hzero => (hlimits number).1 (UInt32.toNat_inj.mp hzero),
      UInt32.le_iff_toNat_le.mp (hlimits number).2⟩

end Whole

/-- `a/x` and `a-b`: the walk meets the larger key first, and only one of them. -/
theorem listsAll_iff_example :
    ObjectRoot [(utf8 "a", .directory [(utf8 "x", .regular [])]), (utf8 "a-b", .regular [1])] ∧
      ∀ limits, ValidLimits limits → ListsAll (fun _ => .zero 32)
        [(utf8 "a", .directory [(utf8 "x", .regular [])]), (utf8 "a-b", .regular [1])] limits := by
  have hroot : ObjectRoot [(utf8 "a", .directory [(utf8 "x", .regular [])]), (utf8 "a-b", .regular [1])] :=
    ⟨by decide +kernel, by decide +kernel⟩
  exact ⟨hroot, (listsAll_iff hroot).2.mpr (by decide +kernel)⟩

/-- `a/x`, `a/y` and `a-b` on pages of one object: the first page ends with `a/x`, which is behind `a-b`. -/
def skippedRoot : List (Text × Entry) :=
  [(utf8 "a", .directory [(utf8 "x", .regular []), (utf8 "y", .regular [])]), (utf8 "a-b", .regular [])]

theorem list_skips_key : ObjectRoot skippedRoot ∧ ValidLimits (fun _ => 1) ∧
    ¬ListsAll (fun _ => .zero 32) skippedRoot fun _ => 1 := by
  have hroot : ObjectRoot skippedRoot := ⟨by decide +kernel, by decide +kernel⟩
  have hone : (1 : UInt32) ≠ 0 ∧ 1 ≤ maximumInventoryPage := by decide
  have hlimits : ValidLimits fun _ => 1 := fun _ => hone
  refine ⟨hroot, hlimits, fun hall => ?_⟩
  have hfits := (listsAll_iff_pageFits hroot hlimits).mp hall 0 (utf8 "a-b") (by decide +kernel) (by decide +kernel)
    (by decide +kernel)
  exact absurd hfits (by decide +kernel)

end Skydriver.LocalFs
