import Skydriver.Control.Committed

/-!
# How deep the namespace grows

Every planner refuses a chain of more than `maximumDirectoryDepth` directories, so a directory below that depth could
no longer be modified, removed or moved.  The planners check the chain they rewrite: that of the parent of a new
directory, and the two chains of a rename, but neither the new directory itself nor what lies below a moved one.  The
bound therefore holds in every run whose creations and moves leave room, and fails in others.
-/

namespace Skydriver

/-- The chain of `id` up to the root of its filesystem has `rows` directories. -/
def Tree.Depth (tree : Tree) (id : Identity) (rows : Nat) : Prop := tree.directories.Chain DirectoryRow.parentId id rows

/-- Every directory hangs below a root, and the active ones not too deep. -/
structure Tree.Shallow (tree : Tree) : Prop where
  grounded : ∀ id row, tree.directories.lookup id = some row → ∃ rows, tree.Depth id rows
  bounded : ∀ id row rows, tree.directories.lookup id = some row → row.state = .active → tree.Depth id rows →
    rows ≤ maximumDirectoryDepth

/-- A new directory leaves room below its parent, and a moved directory room for all active directories below it. -/
def DepthChecked (moment : Moment Database Mutation) : Mutation → Prop
  | .mkdir batch => ∀ rows, moment.state.tree.Depth batch.parentDirectoryId rows → rows < maximumDirectoryDepth
  | .rename batch => ∀ moved dataRoot, batch.entry.content = .directory moved dataRoot →
      ∀ id row steps rows, moment.state.tree.directories.lookup id = some row → row.state = .active →
        moment.state.tree.directories.Reaches DirectoryRow.parentId steps id moved →
        moment.state.tree.Depth batch.target.destinationDirectoryId rows → steps + rows + 1 ≤ maximumDirectoryDepth
  | _ => True

/-! ### What each batch does to the directory rows -/

theorem shape_parentId {row row' : DirectoryRow} (h : row.shape = row'.shape) : row.parentId = row'.parentId :=
  show row.shape.parentId = row'.shape.parentId by rw [h]

theorem shape_state {row row' : DirectoryRow} (h : row.shape = row'.shape) : row.state = row'.state :=
  show row.shape.state = row'.shape.state by rw [h]

theorem exists_of_shape {left right : Table Identity DirectoryRow} {id : Identity} {row : DirectoryRow}
    (hshape : (right.lookup id).map DirectoryRow.shape = (left.lookup id).map DirectoryRow.shape)
    (hrow : left.lookup id = some row) : ∃ row', right.lookup id = some row' ∧ row'.shape = row.shape := by
  rw [hrow, Option.map_some, Option.map_eq_some_iff] at hshape
  exact hshape

theorem Tree.Shallow.of_shape {tree after : Tree} (h : tree.Shallow)
    (hshape : ∀ id, after.shapeAt id = tree.shapeAt id) : after.Shallow := by
  have hforward : ∀ {id rows}, tree.Depth id rows → after.Depth id rows := fun hdepth =>
    hdepth.transfer fun met row _ hrow => by
      obtain ⟨row', hrow', heq⟩ := exists_of_shape (hshape met) hrow
      exact ⟨row', hrow', shape_parentId heq⟩
  constructor
  · intro id row hrow
    obtain ⟨old, hold, _⟩ := exists_of_shape (hshape id).symm hrow
    obtain ⟨rows, hdepth⟩ := h.grounded id old hold
    exact ⟨rows, hforward hdepth⟩
  · intro id row rows hrow hactive hdepth
    obtain ⟨old, hold, heq⟩ := exists_of_shape (hshape id).symm hrow
    obtain ⟨rows', hdepth'⟩ := h.grounded id old hold
    rw [hdepth.functional (hforward hdepth')]
    exact h.bounded id old rows' hold ((shape_state heq).trans hactive) hdepth'

theorem updateRoots_shapeAt (updates : List DirectoryUpdate) (directories : Table Identity DirectoryRow)
    (entries entries' : Table (Identity × Text) EntryRow) (id : Identity) :
    (Tree.mk (updateRoots updates directories) entries).shapeAt id = (Tree.mk directories entries').shapeAt id :=
  updateRoots_shape updates directories id

theorem PutCommitted.shapeAt {batch : PutCommitBatch} {intent : PutIntentRow} {db after : Database}
    (h : PutCommitted batch intent db after) (id : Identity) : after.tree.shapeAt id = db.tree.shapeAt id := by
  obtain ⟨_, _, _, _, htree⟩ := putTree_eq_some h.tree
  rw [htree]
  exact updateRoots_shapeAt _ _ _ db.tree.entries id

theorem Tree.Shallow.insert {tree : Tree} (h : tree.Shallow) {child parent : Identity} {row : DirectoryRow}
    (hchild : tree.directories.lookup child = none) (hparent : row.parentId = some parent)
    (hexists : ∃ found, tree.directories.lookup parent = some found)
    (hroom : ∀ rows, tree.Depth parent rows → rows < maximumDirectoryDepth)
    (entries : Table (Identity × Text) EntryRow) :
    (Tree.mk (tree.directories.insert child row) entries).Shallow := by
  have hold : ∀ id found, tree.directories.lookup id = some found →
      (tree.directories.insert child row).lookup id = some found := by
    intro id found hfound
    rw [Table.lookup_insert_eq, if_neg]
    · exact hfound
    · intro heq
      rw [heq, hchild] at hfound
      cases hfound
  have hforward : ∀ {id rows}, tree.Depth id rows →
      (Tree.mk (tree.directories.insert child row) entries).Depth id rows := fun hdepth =>
    hdepth.transfer fun met found _ hfound => ⟨found, hold met found hfound, rfl⟩
  obtain ⟨found, hfound⟩ := hexists
  obtain ⟨height, hheight⟩ := h.grounded parent found hfound
  have hnew : (Tree.mk (tree.directories.insert child row) entries).Depth child (height + 1) :=
    .up (AList.lookup_insert _) hparent (hforward hheight)
  constructor
  · intro id other hother
    rw [Table.lookup_insert_eq] at hother
    split_ifs at hother with hid
    · exact ⟨height + 1, hid ▸ hnew⟩
    · obtain ⟨rows, hdepth⟩ := h.grounded id other hother
      exact ⟨rows, hforward hdepth⟩
  · intro id other rows hother hactive hdepth
    rw [Table.lookup_insert_eq] at hother
    split_ifs at hother with hid
    · rw [hid] at hdepth
      rw [hdepth.functional hnew]
      exact hroom height hheight
    · obtain ⟨rows', hdepth'⟩ := h.grounded id other hother
      rw [hdepth.functional (hforward hdepth')]
      exact h.bounded id other rows' hother hactive hdepth'

theorem MkdirCommitted.shallow {batch : MkdirBatch} {db after : Database} (h : MkdirCommitted batch db after)
    (hshallow : db.tree.Shallow)
    (hroom : ∀ rows, db.tree.Depth batch.parentDirectoryId rows → rows < maximumDirectoryDepth) :
    after.tree.Shallow := by
  obtain ⟨_, _, hchild, _, _, ⟨parent, hparent, _⟩, _, _, htree⟩ := mkdirTree_eq_some h.tree
  rw [htree]
  have hrow : (mkdirRow batch).parentId = some batch.parentDirectoryId := rfl
  apply Tree.Shallow.of_shape (hshallow.insert hchild hrow ⟨parent, hparent⟩ hroom db.tree.entries)
  exact updateRoots_shapeAt _ _ _ _

theorem Tree.Shallow.removed {tree : Tree} (h : tree.Shallow) (content : EntryContent)
    (entries : Table (Identity × Text) EntryRow) :
    (Tree.mk (removedDirectories content tree.directories) entries).Shallow := by
  have hrows : ∀ id, ∃ change : DirectoryRow → DirectoryRow,
      (removedDirectories content tree.directories).lookup id = (tree.directories.lookup id).map change ∧
        ∀ row, (change row).parentId = row.parentId ∧ ((change row).state = .active → row.state = .active) := by
    intro id
    cases content with
    | file fileId versionId sizeBytes dataRoot metadataRoot =>
        exact ⟨fun row => row, by simp [removedDirectories], fun row => ⟨rfl, fun hactive => hactive⟩⟩
    | directory child dataRoot =>
        rw [removedDirectories, Table.lookup_modify]
        by_cases hid : id = child
        · refine ⟨_, if_pos hid, fun row => ?_⟩
          split_ifs with hactive
          · exact ⟨rfl, fun _ => hactive⟩
          · exact ⟨rfl, fun hstate => hstate⟩
        · exact ⟨fun row => row, by rw [if_neg hid, Option.map_id'], fun row => ⟨rfl, fun hactive => hactive⟩⟩
  have hforward : ∀ {id rows}, tree.Depth id rows →
      (removedDirectories content tree.directories).Chain DirectoryRow.parentId id rows := fun hdepth =>
    hdepth.transfer fun met row _ hrow => by
      obtain ⟨change, hlookup, hchange⟩ := hrows met
      rw [hrow] at hlookup
      exact ⟨change row, hlookup, (hchange row).1⟩
  have hback : ∀ id row, (removedDirectories content tree.directories).lookup id = some row →
      ∃ old, tree.directories.lookup id = some old ∧ (row.state = .active → old.state = .active) := by
    intro id row hrow
    obtain ⟨change, hlookup, hchange⟩ := hrows id
    rw [hrow] at hlookup
    obtain ⟨old, hold, rfl⟩ := Option.map_eq_some_iff.mp hlookup.symm
    exact ⟨old, hold, (hchange old).2⟩
  constructor
  · intro id row hrow
    obtain ⟨old, hold, _⟩ := hback id row hrow
    obtain ⟨rows, hdepth⟩ := h.grounded id old hold
    exact ⟨rows, hforward hdepth⟩
  · intro id row rows hrow hactive hdepth
    obtain ⟨old, hold, hstate⟩ := hback id row hrow
    obtain ⟨rows', hdepth'⟩ := h.grounded id old hold
    rw [hdepth.functional (hforward hdepth')]
    exact h.bounded id old rows' hold (hstate hactive) hdepth'

theorem RemoveCommitted.shallow {batch : RemoveBatch} {db after : Database} (h : RemoveCommitted batch db after)
    (hshallow : db.tree.Shallow) : after.tree.Shallow := by
  obtain ⟨_, _, htree⟩ := removeTree_eq_some h.tree
  rw [htree]
  apply Tree.Shallow.of_shape (hshallow.removed batch.entry.content db.tree.entries)
  exact updateRoots_shapeAt _ _ _ _

/-- A move regrafts what lies below the moved directory and leaves all other chains alone. -/
theorem Tree.Shallow.moved {tree : Tree} (h : tree.Shallow) {target : RenameTarget} {child : Identity}
    {row : DirectoryRow} (hrow : tree.directories.lookup child = some row)
    (hacyclic : child ∉ tree.ancestors target.destinationDirectoryId)
    (hdestination : ∃ parent, tree.directories.lookup target.destinationDirectoryId = some parent)
    (hroom : ∀ id found steps rows, tree.directories.lookup id = some found → found.state = .active →
      tree.directories.Reaches DirectoryRow.parentId steps id child →
      tree.Depth target.destinationDirectoryId rows → steps + rows + 1 ≤ maximumDirectoryDepth)
    (entries : Table (Identity × Text) EntryRow) :
    (Tree.mk (tree.directories.insert child (movedRow target row)) entries).Shallow := by
  have hother : ∀ key found, key ≠ child → tree.directories.lookup key = some found →
      ∃ found', (tree.directories.insert child (movedRow target row)).lookup key = some found' ∧
        found'.parentId = found.parentId := by
    intro key found hkey hfound
    exact ⟨found, by rw [AList.lookup_insert_ne hkey, hfound], rfl⟩
  obtain ⟨parent, hparent⟩ := hdestination
  obtain ⟨height, hheight⟩ := h.grounded _ parent hparent
  -- the chain of the destination avoids the moved directory, so the move leaves it alone
  have htarget : (Tree.mk (tree.directories.insert child (movedRow target row)) entries).Depth
      target.destinationDirectoryId height := by
    apply hheight.transfer
    intro met found hmet hfound
    apply hother met found _ hfound
    intro heq
    obtain ⟨steps, hmet⟩ := hmet
    exact hacyclic (List.mem_map.mpr ⟨(child, row), Table.mem_lineage_iff.mpr ⟨hrow, steps, heq ▸ hmet⟩, rfl⟩)
  have hgraft : ∀ {id rows}, tree.Depth id rows →
      (∃ steps, tree.directories.Reaches DirectoryRow.parentId steps id child ∧
        (Tree.mk (tree.directories.insert child (movedRow target row)) entries).Depth id (steps + height + 1)) ∨
      (Tree.mk (tree.directories.insert child (movedRow target row)) entries).Depth id rows := fun hdepth =>
    Table.Chain.graft hother (AList.lookup_insert _) rfl htarget hdepth
  have hback : ∀ id found, (tree.directories.insert child (movedRow target row)).lookup id = some found →
      ∃ old, tree.directories.lookup id = some old ∧ old.state = found.state := by
    intro id found hfound
    rw [Table.lookup_insert_eq] at hfound
    split_ifs at hfound with hid
    · cases hfound
      exact ⟨row, hid ▸ hrow, rfl⟩
    · exact ⟨found, hfound, rfl⟩
  constructor
  · intro id found hfound
    obtain ⟨old, hold, _⟩ := hback id found hfound
    obtain ⟨rows, hdepth⟩ := h.grounded id old hold
    rcases hgraft hdepth with ⟨steps, _, hchain⟩ | hchain
    · exact ⟨_, hchain⟩
    · exact ⟨_, hchain⟩
  · intro id found rows hfound hactive hdepth
    obtain ⟨old, hold, hstate⟩ := hback id found hfound
    obtain ⟨rows', hdepth'⟩ := h.grounded id old hold
    rcases hgraft hdepth' with ⟨steps, hreach, hchain⟩ | hchain
    · rw [hdepth.functional hchain]
      exact hroom id old steps height hold (hstate.trans hactive) hreach hheight
    · rw [hdepth.functional hchain]
      exact h.bounded id old rows' hold (hstate.trans hactive) hdepth'

theorem RenameCommitted.shallow {batch : RenameBatch} {db after : Database} (h : RenameCommitted batch db after)
    (hshallow : db.tree.Shallow)
    (hroom : ∀ moved dataRoot, batch.entry.content = .directory moved dataRoot →
      ∀ id row steps rows, db.tree.directories.lookup id = some row → row.state = .active →
        db.tree.directories.Reaches DirectoryRow.parentId steps id moved →
        db.tree.Depth batch.target.destinationDirectoryId rows → steps + rows + 1 ≤ maximumDirectoryDepth) :
    after.tree.Shallow := by
  obtain ⟨_, _, directories, hmove, _, _, _, htree⟩ := renameTree_eq_some h.tree
  rw [htree]
  have hmiddle : (Tree.mk directories db.tree.entries).Shallow := by
    generalize hcontent : batch.entry.content = content at hmove
    cases hmove with
    | file => exact hshallow
    | unchanged => exact hshallow
    | moved hrow _ _ _ hacyclic _ hdestination =>
        obtain ⟨parent, hparent, _⟩ := hdestination
        exact hshallow.moved hrow hacyclic ⟨parent, hparent⟩ (hroom _ _ hcontent) db.tree.entries
  apply Tree.Shallow.of_shape hmiddle
  exact updateRoots_shapeAt _ _ _ _

theorem Committed.shallow {moment : Moment Database Mutation} {after : Database} {mutation : Mutation}
    (h : Committed moment.state after mutation) (hshallow : moment.state.tree.Shallow)
    (hroom : DepthChecked moment mutation) : after.tree.Shallow := by
  rcases h.tree_cases with ⟨batch, intent, rfl, hput⟩ | ⟨batch, rfl, hmkdir⟩ | ⟨batch, rfl, hremove⟩ |
    ⟨batch, rfl, hrename⟩ | ⟨_, hsame⟩
  · exact hshallow.of_shape hput.shapeAt
  · exact hmkdir.shallow hshallow hroom
  · exact hremove.shallow hshallow
  · exact hrename.shallow hshallow hroom
  · rw [hsame]
    exact hshallow

theorem Bootstrapped.shallow {prims : Primitives} {db : Database} (h : Bootstrapped prims db) : db.tree.Shallow where
  grounded := fun id row hrow => ⟨1, .top hrow (h.roots id row hrow).1⟩
  bounded := by
    intro id row rows hrow _ hdepth
    rw [hdepth.functional (.top hrow (h.roots id row hrow).1)]
    decide

theorem shallow_of_reachable {prims : Primitives} {start : Database} {system : ControlState}
    (hstart : Bootstrapped prims start) (hrun : Reachable prims DepthChecked start system) :
    system.state.tree.Shallow := by
  apply Reachable.state_invariant (fun db => db.tree.Shallow) _ _ hstart.shallow hrun
  · intro before after hshallow hdrift
    rw [hdrift.tree_eq]
    exact hshallow
  · intro moment mutation after hshallow hroom hcommitted
    exact hcommitted.shallow hshallow hroom

/-! ### Planners on a shallow namespace -/

section Planners

variable {μ ρ ε ι : Type}

theorem readOn_loadDirectory (id : Identity) (db : Database) :
    (loadDirectory id : Program Database μ ρ ε ι _).readOn db = some (db.tree.directories.lookup id) := rfl

theorem readOn_loadVerifiedEntries (prims : Primitives) (id : Identity) (row : DirectoryRow) (db : Database) :
    ∃ result, (loadVerifiedEntries prims id row : Program Database μ ρ ε ι _).readOn db = some result ∧
      result ≠ .error (.failed .ancestry) := by
  rw [loadVerifiedEntries, Program.readOn_bind]
  cases hroot : directoryMerkleRoot prims ((db.tree.storedEntries id).map StoredEntry.entry) with
  | error error =>
      refine ⟨.error (.failed (.verifyRoot error)), ?_, by simp⟩
      simp [loadDirectoryEntries, Program.query, hroot]
  | ok currentRoot =>
      simp only [loadDirectoryEntries, Program.query, Program.readOn_read, Program.readOn_done, Option.bind_some, hroot]
      split_ifs
      · exact ⟨_, rfl, by simp⟩
      · rw [Program.readOn_bind, rootMismatch, Program.readOn_bind, readOn_loadDirectory, Option.bind_some]
        cases db.tree.directories.lookup id with
        | none => exact ⟨_, rfl, by simp⟩
        | some current =>
            dsimp only
            split_ifs
            · exact ⟨_, rfl, by simp⟩
            · exact ⟨_, rfl, by simp⟩

/-- The walk never runs out of fuel or in a circle: it meets the rows of one chain, each deeper than the next. -/
theorem readOn_walkAncestors (prims : Primitives) (filesystemId : Identity) (edit : DirectEdit) (db : Database)
    {fuel rows : Nat} {current : Identity} {visited : List Identity} (hdepth : db.tree.Depth current rows)
    (hfuel : rows ≤ fuel) (hvisited : ∀ id ∈ visited, ∃ deeper, rows < deeper ∧ db.tree.Depth id deeper)
    (replacement : Replacement) (directories : List DirectoryUpdate) (links : List LinkUpdate) :
    ∃ planning, (walkAncestors prims filesystemId edit fuel current visited replacement directories links :
        Program Database μ ρ ε ι _).readOn db = some planning ∧ planning ≠ .failed .ancestry := by
  induction fuel generalizing rows current visited replacement directories links with
  | zero => exact absurd hdepth.pos (by omega)
  | succ fuel ih =>
      have hnew : visited.contains current = false := by
        rw [← Bool.not_eq_true, List.contains_iff_mem]
        intro hmem
        obtain ⟨deeper, hlt, hdeeper⟩ := hvisited current hmem
        exact absurd (hdepth.functional hdeeper) (by omega)
      rw [walkAncestors, hnew, if_neg Bool.false_ne_true, Program.readOn_bind, readOn_loadDirectory, Option.bind_some]
      cases hrow : db.tree.directories.lookup current with
      | none => exact ⟨_, rfl, by simp⟩
      | some directory =>
          dsimp only
          split_ifs
          · exact ⟨_, rfl, by simp⟩
          obtain ⟨result, hresult, hne⟩ := readOn_loadVerifiedEntries (μ := μ) (ρ := ρ) (ε := ε) (ι := ι) prims current
            directory db
          rw [Program.readOn_bind, hresult, Option.bind_some]
          cases result with
          | error planning => exact ⟨planning, rfl, fun heq => hne (by rw [heq])⟩
          | ok stored =>
              cases hlevel : planLevel prims edit replacement current directory stored with
              | error planning =>
                  refine ⟨planning, by simp [hlevel], ?_⟩
                  intro heq
                  rw [heq] at hlevel
                  unfold planLevel at hlevel
                  split at hlevel
                  · cases hlevel
                  · split at hlevel
                    · cases hlevel
                    · split_ifs at hlevel
                      cases hlevel
              | ok level =>
                  obtain ⟨update, link⟩ := level
                  simp only [hlevel]
                  cases hparent : directory.parentId with
                  | none => exact ⟨_, rfl, by simp⟩
                  | some parentId =>
                      cases hdepth with
                      | top hrow' hnone =>
                          rw [hrow] at hrow'
                          cases hrow'
                          rw [hparent] at hnone
                          cases hnone
                      | up hrow' habove hchain =>
                          rw [hrow] at hrow'
                          cases hrow'
                          rw [hparent] at habove
                          cases habove
                          apply ih hchain (by omega)
                          intro id hid
                          rcases List.mem_cons.mp hid with rfl | hold
                          · exact ⟨_, Nat.lt_succ_self _, .up hrow hparent hchain⟩
                          · obtain ⟨deeper, hlt, hdeeper⟩ := hvisited id hold
                            exact ⟨deeper, by omega, hdeeper⟩

theorem readOn_planChain (prims : Primitives) (filesystemId : Identity) (edit : DirectEdit) (db : Database) {rows : Nat}
    {directoryId : Identity} (hdepth : db.tree.Depth directoryId rows) (hbound : rows ≤ maximumDirectoryDepth) :
    (planChain prims filesystemId directoryId edit : Program Database μ ρ ε ι _).readOn db ≠
      some (.failed .ancestry) := by
  have hunvisited : ∀ id ∈ ([] : List Identity), ∃ deeper, rows < deeper ∧ db.tree.Depth id deeper := by simp
  obtain ⟨planning, hplanning, hne⟩ := readOn_walkAncestors (μ := μ) (ρ := ρ) (ε := ε) (ι := ι) prims filesystemId edit
    db hdepth hbound hunvisited .direct [] []
  rw [planChain, hplanning]
  exact fun heq => hne (Option.some.inj heq)

/-- The loop of `load_ancestor_chain` ends with a chain. -/
theorem readOn_loadAncestors (filesystemId : Identity) (db : Database) {fuel rows : Nat} {current : Identity}
    {chain : List LoadedDirectory} (hdepth : db.tree.Depth current rows) (hfuel : rows ≤ fuel)
    (hchain : ∀ loaded ∈ chain, ∃ deeper, rows < deeper ∧ db.tree.Depth loaded.1 deeper) :
    ∃ found, (loadAncestors filesystemId fuel current chain : Program Database μ ρ ε ι _).readOn db =
      some (some found) := by
  induction fuel generalizing rows current chain with
  | zero => exact absurd hdepth.pos (by omega)
  | succ fuel ih =>
      have hnew : (chain.map Prod.fst).contains current = false := by
        rw [← Bool.not_eq_true, List.contains_iff_mem, List.mem_map]
        intro hmem
        obtain ⟨loaded, hloaded, heq⟩ := hmem
        obtain ⟨deeper, hlt, hdeeper⟩ := hchain loaded hloaded
        rw [heq] at hdeeper
        exact absurd (hdepth.functional hdeeper) (by omega)
      rw [loadAncestors, hnew, if_neg Bool.false_ne_true, Program.readOn_bind, readOn_loadDirectory, Option.bind_some]
      cases hrow : db.tree.directories.lookup current with
      | none => exact ⟨_, rfl⟩
      | some row =>
          dsimp only
          split_ifs
          · exact ⟨_, rfl⟩
          cases hparent : row.parentId with
          | none => exact ⟨_, rfl⟩
          | some parent =>
              cases hdepth with
              | top hrow' hnone =>
                  rw [hrow] at hrow'
                  cases hrow'
                  rw [hparent] at hnone
                  cases hnone
              | up hrow' habove habovechain =>
                  rw [hrow] at hrow'
                  cases hrow'
                  rw [hparent] at habove
                  cases habove
                  apply ih habovechain (by omega)
                  intro loaded hloaded
                  rcases List.mem_append.mp hloaded with hold | hlast
                  · obtain ⟨deeper, hlt, hdeeper⟩ := hchain loaded hold
                    exact ⟨deeper, by omega, hdeeper⟩
                  · rw [List.mem_singleton.mp hlast]
                    exact ⟨_, Nat.lt_succ_self _, .up hrow hparent habovechain⟩

end Planners

/-- The planners that start at `id` get past its ancestry. -/
structure PlannersReach (prims : Primitives) (db : Database) (id : Identity) : Prop where
  put : ∀ intent : PutIntentRow, intent.directoryId = id →
    (planDirectoryRoots prims intent : Program Database Mutation Bool Effect Answer Planning).readOn db ≠
      some (.failed .ancestry)
  newChild : ∀ filesystemId childDirectoryId childName childRoot,
    (planNewChildDirectoryRoots prims filesystemId id childDirectoryId childName childRoot :
      Program Database Mutation Bool Effect Answer Planning).readOn db ≠ some (.failed .ancestry)
  removal : ∀ filesystemId name expectedEntryRevision,
    (planEntryRemovalRoots prims filesystemId id name expectedEntryRevision :
      Program Database Mutation Bool Effect Answer Planning).readOn db ≠ some (.failed .ancestry)
  chain : ∀ filesystemId,
    (loadAncestorChain filesystemId id : Program Database Mutation Bool Effect Answer _).readOn db ≠ some none

theorem Tree.Depth.plannersReach (prims : Primitives) {db : Database} {id : Identity} {rows : Nat}
    (hdepth : db.tree.Depth id rows) (hbound : rows ≤ maximumDirectoryDepth) : PlannersReach prims db id where
  put := by
    intro intent hdirectory
    rw [planDirectoryRoots, Program.query_bind, Program.readOn_read]
    split_ifs
    · rw [hdirectory]
      exact readOn_planChain prims _ _ db hdepth hbound
    · exact fun heq => by cases heq
  newChild := fun _ _ _ _ => readOn_planChain prims _ _ db hdepth hbound
  removal := fun _ _ _ => readOn_planChain prims _ _ db hdepth hbound
  chain := by
    intro filesystemId
    have hempty : ∀ loaded ∈ ([] : List LoadedDirectory), ∃ deeper, rows < deeper ∧ db.tree.Depth loaded.1 deeper := by
      simp
    obtain ⟨found, hfound⟩ := readOn_loadAncestors (μ := Mutation) (ρ := Bool) (ε := Effect) (ι := Answer) filesystemId
      db hdepth hbound hempty
    rw [loadAncestorChain, hfound]
    exact fun heq => by cases heq

/-- In every run whose creations and moves leave room, each active directory is within the depth that the planners
accept, so that it can be modified, removed from and moved out of. -/
theorem depth_within_limit {prims : Primitives} {start : Database} {system : ControlState}
    (hstart : Bootstrapped prims start) (hrun : Reachable prims DepthChecked start system) {id : Identity}
    {row : DirectoryRow} (hrow : system.state.tree.directories.lookup id = some row) (hactive : row.state = .active) :
    (∃ rows ≤ maximumDirectoryDepth, system.state.tree.Depth id rows) ∧ PlannersReach prims system.state id := by
  have hshallow := shallow_of_reachable hstart hrun
  obtain ⟨rows, hdepth⟩ := hshallow.grounded id row hrow
  have hbound := hshallow.bounded id row rows hrow hactive hdepth
  exact ⟨⟨rows, hbound, hdepth⟩, hdepth.plannersReach prims hbound⟩

namespace Sample

/-- While there are few directories, creations, and moves of a directory that lies in the root. -/
def fewDirectories (moment : Moment Database Mutation) : Mutation → Bool
  | .mkdir _ => decide (moment.state.tree.directories.entries.length + 1 < maximumDirectoryDepth)
  | .rename batch =>
      decide (2 * moment.state.tree.directories.entries.length + 1 ≤ maximumDirectoryDepth) &&
        ((moment.state.tree.directories.lookup batch.entry.content.subjectId).bind DirectoryRow.parentId).any fun parent =>
          (moment.state.tree.directories.lookup parent).any fun row => row.parentId.isNone
  | _ => true

theorem depthChecked_of_fewDirectories (moment : Moment Database Mutation) (mutation : Mutation)
    (h : fewDirectories moment mutation = true) : DepthChecked moment mutation := by
  cases mutation with
  | mkdir batch =>
      intro rows hdepth
      exact hdepth.le_length.trans_lt (of_decide_eq_true h)
  | rename batch =>
      obtain ⟨hfew, hroot⟩ := (Bool.and_eq_true _ _).mp h
      obtain ⟨parent, hparent, hroot⟩ := (Option.any_eq_true _ _).mp hroot
      obtain ⟨row, hrow, hparent⟩ := Option.bind_eq_some_iff.mp hparent
      obtain ⟨above, habove, hnone⟩ := (Option.any_eq_true _ _).mp hroot
      rintro moved dataRoot hcontent id below steps rows - - hreach hdepth
      rw [hcontent] at hrow
      have hlower := Table.Chain.of_reaches hreach (.up hrow hparent (.top habove (Option.isNone_iff_eq_none.mp hnone)))
      have := hlower.le_length
      have := hdepth.le_length
      have := of_decide_eq_true hfew
      omega
  | _ => trivial

/-- A directory with a child moves below another directory. -/
def movedParent : List (Machine.Event Request Database Answer) :=
  complete 0 (createRequest 0 root [97]) ++ complete 1 (createRequest 1 (fresh 1) [98]) ++
    complete 2 (createRequest 2 root [99]) ++ complete 3 (renameRequest 3 root [97] 2 (fresh 21) [97])

/-- Each directory is created in the root and then takes the one before it below itself. -/
def wrapping : Nat → List Request
  | 0 => []
  | count + 1 =>
      wrapping count ++ createRequest count root [97 + (count % 2).toUInt8] ::
        if count = 0 then []
        else
          [renameRequest count root [97 + ((count - 1) % 2).toUInt8] (if count = 1 then 1 else 2)
            (fresh (10 * count + 1)) [97]]

end Sample

theorem depth_within_limit_movedParent :
    ((Sample.run Sample.movedParent).state.tree.directories.lineage DirectoryRow.parentId (Sample.fresh 11)).length = 4 ∧
      (∃ rows ≤ maximumDirectoryDepth, (Sample.run Sample.movedParent).state.tree.Depth (Sample.fresh 11) rows) ∧
        PlannersReach Sample.prims (Sample.run Sample.movedParent).state (Sample.fresh 11) := by
  have hreach : Reachable Sample.prims DepthChecked Sample.database (Sample.run Sample.movedParent) :=
    Sample.reachable_run Sample.depthChecked_of_fewDirectories _ (fun _ hmem => by
      simp [Sample.movedParent, Sample.complete, Sample.advances] at hmem) (by decide +kernel)
  have hactive : ((Sample.run Sample.movedParent).state.tree.directories.lookup (Sample.fresh 11)).map
      DirectoryRow.state = some .active := by decide +kernel
  obtain ⟨row, hrow, hstate⟩ := Option.map_eq_some_iff.mp hactive
  exact ⟨by decide +kernel, depth_within_limit Sample.bootstrapped_database hreach hrow hstate⟩

/-- The first of thirty-two wrapped directories lies thirty-three rows deep. -/
theorem wrapped_too_deep :
    Bootstrapped Sample.prims Sample.database ∧
      ∃ system row, Reachable Sample.prims anyBatch Sample.database system ∧
        system.state.tree.directories.lookup (Sample.fresh 1) = some row ∧ row.state = .active ∧
        (¬∃ rows ≤ maximumDirectoryDepth, system.state.tree.Depth (Sample.fresh 1) rows) ∧
        (loadAncestorChain Sample.filesystemId (Sample.fresh 1) :
          Program Database Mutation Bool Effect Answer _).readOn system.state = some none := by
  have hdeep : (fun db : Database => (db.tree.directories.lookup (Sample.fresh 1)).map DirectoryRow.state == some .active &&
      (db.tree.directories.lineage DirectoryRow.parentId (Sample.fresh 1)).length == 33 &&
      ((loadAncestorChain Sample.filesystemId (Sample.fresh 1) :
        Program Database Mutation Bool Effect Answer _).readOn db == some none))
      (Sample.served (Sample.wrapping 32) Sample.database) = true := by decide +kernel
  simp only [Bool.and_eq_true, beq_iff_eq] at hdeep
  obtain ⟨⟨hactive, hlength⟩, hchain⟩ := hdeep
  obtain ⟨row, hrow, hstate⟩ := Option.map_eq_some_iff.mp hactive
  obtain ⟨system, hreach, heq⟩ := Sample.reachable_served (Sample.wrapping 32) .refl
  have hsystem : system.state = Sample.served (Sample.wrapping 32) Sample.database := heq
  rw [← hsystem] at hrow hlength hchain
  refine ⟨Sample.bootstrapped_database, system, row, hreach, hrow, hstate, ?_, hchain⟩
  intro hbounded
  obtain ⟨rows, hle, hdepth⟩ := hbounded
  rw [hdepth.length_lineage] at hlength
  exact absurd hle (by rw [hlength]; decide)

end Skydriver
