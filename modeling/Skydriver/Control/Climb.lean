import Skydriver.Control.Pagination
import Skydriver.Control.Rewriting

/-!
# What a chain planner read

A planner that rewrites one chain of ancestors reads a row and a listing for each level, at different moments, while
other batches commit.  A directory never changes under its revision, so that a level whose row is still current when the
plan commits was read as it is then.  A plan all of whose levels are current is the plan that its planner would compute
on the very state it commits on.
-/

namespace Skydriver

/-! ### Directories that stay as they are -/

/-- Between two trees no directory changes under its revision, neither its row nor its entries. -/
structure Tree.Pinned (old new : Tree) : Prop where
  rows : RowsAdvance old.directories new.directories
  entries : ∀ {id row}, old.directories.lookup id = some row → new.directories.lookup id = some row →
    ∀ name, new.entries.lookup (id, name) = old.entries.lookup (id, name)

theorem Tree.Pinned.refl (tree : Tree) : tree.Pinned tree := ⟨.refl _, fun _ _ _ => rfl⟩

/-- A directory whose revision is the same at both ends did not change in between. -/
theorem RowsAdvance.between {first second third : Table Identity DirectoryRow} (h : RowsAdvance first second)
    (h' : RowsAdvance second third) {id : Identity} {row last : DirectoryRow} (hrow : first.lookup id = some row)
    (hlast : third.lookup id = some last) (hrevision : last.revision = row.revision) :
    second.lookup id = some row ∧ last = row := by
  obtain ⟨middle, hmiddle, hfirst⟩ := h id row hrow
  obtain ⟨found, hfound, hsecond⟩ := h' id middle hmiddle
  rw [hlast] at hfound
  cases hfound
  rcases hfirst with rfl | hlt
  · rcases hsecond with rfl | hlt'
    · exact ⟨hmiddle, rfl⟩
    · omega
  · rcases hsecond with rfl | hlt'
    · omega
    · omega

theorem Tree.Pinned.trans {first second third : Tree} (h : first.Pinned second) (h' : second.Pinned third) :
    first.Pinned third where
  rows := h.rows.trans h'.rows
  entries := by
    intro id row hrow hlast name
    obtain ⟨hmiddle, _⟩ := h.rows.between h'.rows hrow hlast rfl
    rw [h'.entries hmiddle hlast, h.entries hrow hmiddle]

/-- Up to `now`, rows, entries and roots agree in every state, and no directory changes under its revision. -/
structure Steady (prims : Primitives) (now : Instant) : Prop where
  settled : ∀ {past : Instant}, past.Before now → past.state.tree.Settled prims
  pinned : ∀ {first second : Instant}, first.Before second → second.Before now →
    first.state.tree.Pinned second.state.tree

/-- What was read of a directory that still has the same revision holds to this day. -/
theorem Steady.held {prims : Primitives} {now first middle : Instant} (h : Steady prims now)
    (hfirst : first.Before middle) (hmiddle : middle.Before now) {id : Identity} {row current : DirectoryRow}
    (hrow : first.state.tree.directories.lookup id = some row)
    (hcurrent : now.state.tree.directories.lookup id = some current) (hrevision : current.revision = row.revision) :
    current = row ∧ middle.state.tree.directories.lookup id = some row ∧
      middle.state.tree.storedEntries id = now.state.tree.storedEntries id := by
  have hearly := h.pinned hfirst hmiddle
  have hlate := h.pinned hmiddle (.refl now)
  obtain ⟨hfound, rfl⟩ := hearly.rows.between hlate.rows hrow hcurrent hrevision
  exact ⟨rfl, hfound, Tree.storedEntries_congr fun name => (hlate.entries hfound hcurrent name).symm⟩

/-! ### The levels of a plan -/

theorem planLevel_eq_ok {prims : Primitives} {edit : DirectEdit} {replacement : Replacement} {id : Identity}
    {row : DirectoryRow} {stored : List StoredEntry} {update : DirectoryUpdate} {link : List LinkUpdate} :
    planLevel prims edit replacement id row stored = .ok (update, link) ↔
      ∃ entries newRoot, editEntries edit replacement id stored = some (entries, link) ∧
        directoryMerkleRoot prims entries = .ok newRoot ∧ newRoot ≠ row.dataRoot ∧
          update = ⟨id, row.revision, row.dataRoot, newRoot, entries⟩ := by
  unfold planLevel
  cases hentries : editEntries edit replacement id stored with
  | none => simp
  | some edited =>
      obtain ⟨entries, links⟩ := edited
      dsimp only
      cases hroot : directoryMerkleRoot prims entries with
      | error error => simp [hroot]
      | ok newRoot =>
          dsimp only
          split_ifs with hsame
          · simp [hroot, hsame]
          · simp only [Except.ok.injEq, Prod.mk.injEq, Option.some.injEq]
            constructor
            · intro h
              exact ⟨entries, newRoot, ⟨rfl, h.2⟩, hroot, hsame, h.1.symm⟩
            · intro h
              obtain ⟨_, _, ⟨rfl, rfl⟩, hroot', _, rfl⟩ := h
              rw [hroot] at hroot'
              cases hroot'
              exact ⟨rfl, rfl⟩

/-- The levels of a chain plan, from the edited directory to the root of the filesystem, where `reads` says what may
have been read of a directory. -/
inductive Climb (prims : Primitives) (filesystemId : Identity) (edit : DirectEdit)
    (reads : Identity → DirectoryRow → List StoredEntry → Prop) :
    Identity → Replacement → List DirectoryUpdate → List LinkUpdate → Digest → Prop where
  | top {id : Identity} {replacement : Replacement} {row : DirectoryRow} {stored : List StoredEntry}
      {update : DirectoryUpdate} {link : List LinkUpdate} (hread : reads id row stored)
      (hfilesystem : row.filesystemId = filesystemId) (hactive : row.state = .active)
      (hverified : directoryMerkleRoot prims (stored.map StoredEntry.entry) = .ok row.dataRoot)
      (hlevel : planLevel prims edit replacement id row stored = .ok (update, link)) (hparent : row.parentId = none) :
      Climb prims filesystemId edit reads id replacement [update] link update.newRoot
  | up {id parentId : Identity} {replacement : Replacement} {row : DirectoryRow} {stored : List StoredEntry}
      {update : DirectoryUpdate} {link : List LinkUpdate} {updates : List DirectoryUpdate} {links : List LinkUpdate}
      {root : Digest} (hread : reads id row stored)
      (hfilesystem : row.filesystemId = filesystemId) (hactive : row.state = .active)
      (hverified : directoryMerkleRoot prims (stored.map StoredEntry.entry) = .ok row.dataRoot)
      (hlevel : planLevel prims edit replacement id row stored = .ok (update, link))
      (hparent : row.parentId = some parentId)
      (habove : Climb prims filesystemId edit reads parentId (.child id row.name update.newRoot) updates links root) :
      Climb prims filesystemId edit reads id replacement (update :: updates) (link ++ links) root

/-- What one state says of a directory. -/
def Tree.Reads (tree : Tree) (id : Identity) (row : DirectoryRow) (stored : List StoredEntry) : Prop :=
  tree.directories.lookup id = some row ∧ stored = tree.storedEntries id

/-- What may have been read of a directory between two moments: first its row, later its entries. -/
def ReadBetween {μ : Type} (first last : Moment Database μ) (id : Identity) (row : DirectoryRow)
    (stored : List StoredEntry) : Prop :=
  ∃ early late : Moment Database μ, first.Before early ∧ early.Before late ∧ late.Before last ∧
    early.state.tree.directories.lookup id = some row ∧ stored = late.state.tree.storedEntries id

namespace Climb

variable {prims : Primitives} {filesystemId : Identity} {edit : DirectEdit}
  {reads : Identity → DirectoryRow → List StoredEntry → Prop} {id : Identity} {replacement : Replacement}
  {updates : List DirectoryUpdate} {links : List LinkUpdate} {root : Digest}

theorem mono {reads' : Identity → DirectoryRow → List StoredEntry → Prop}
    (h : Climb prims filesystemId edit reads id replacement updates links root)
    (hreads : ∀ id row stored, (∃ update ∈ updates, update.directoryId = id ∧ update.expectedRevision = row.revision) →
      reads id row stored → reads' id row stored) :
    Climb prims filesystemId edit reads' id replacement updates links root := by
  induction h with
  | top hread hfilesystem hactive hverified hlevel hparent =>
      refine .top (hreads _ _ _ ?_ hread) hfilesystem hactive hverified hlevel hparent
      obtain ⟨_, _, _, _, _, rfl⟩ := planLevel_eq_ok.mp hlevel
      exact ⟨_, List.mem_singleton_self _, rfl, rfl⟩
  | up hread hfilesystem hactive hverified hlevel hparent _ ih =>
      refine .up (hreads _ _ _ ?_ hread) hfilesystem hactive hverified hlevel hparent (ih ?_)
      · obtain ⟨_, _, _, _, _, rfl⟩ := planLevel_eq_ok.mp hlevel
        exact ⟨_, List.mem_cons_self, rfl, rfl⟩
      · intro id row stored hupdate
        obtain ⟨update, hmem, hsame⟩ := hupdate
        exact hreads id row stored ⟨update, List.mem_cons_of_mem _ hmem, hsame⟩

end Climb

section Planner

variable {μ ρ ε ι : Type} {prims : Primitives} {filesystemId : Identity} {edit : DirectEdit}

theorem yields_loadDirectory_iff {id : Identity} {first last : Moment Database μ} {found : Option DirectoryRow} :
    (loadDirectory id : Program Database μ ρ ε ι _).Yields first found last ↔
      first.Before last ∧ found = last.state.tree.directories.lookup id := by
  rw [loadDirectory, Program.query, Program.yields_read_iff]
  constructor
  · intro h
    obtain ⟨later, hlater, hdone⟩ := h
    obtain ⟨rfl, rfl⟩ := Program.yields_done_iff.mp hdone
    exact ⟨hlater, rfl⟩
  · intro h
    exact ⟨last, h.1, Program.yields_done_iff.mpr ⟨h.2, rfl⟩⟩

theorem yields_loadVerifiedEntries {id : Identity} {row : DirectoryRow} {stored : List StoredEntry}
    {first last : Moment Database μ}
    (h : (loadVerifiedEntries prims id row : Program Database μ ρ ε ι _).Yields first (.ok stored) last) :
    first.Before last ∧ stored = last.state.tree.storedEntries id ∧
      directoryMerkleRoot prims (stored.map StoredEntry.entry) = .ok row.dataRoot := by
  rw [loadVerifiedEntries, Program.yields_bind_iff] at h
  obtain ⟨middle, found, hfound, h⟩ := h
  rw [loadDirectoryEntries, Program.query, Program.yields_read_iff] at hfound
  obtain ⟨later, hlater, hdone⟩ := hfound
  obtain ⟨rfl, rfl⟩ := Program.yields_done_iff.mp hdone
  cases hroot : directoryMerkleRoot prims ((middle.state.tree.storedEntries id).map StoredEntry.entry) with
  | error error =>
      rw [hroot] at h
      cases (Program.yields_done_iff.mp h).1
  | ok currentRoot =>
      rw [hroot] at h
      dsimp only at h
      split_ifs at h with hsame
      · obtain ⟨hstored, rfl⟩ := Program.yields_done_iff.mp h
        cases hstored
        exact ⟨hlater, rfl, hsame ▸ hroot⟩
      · obtain ⟨_, _, _, hdone⟩ := Program.yields_bind_iff.mp h
        cases (Program.yields_done_iff.mp hdone).1

theorem loadVerifiedEntries_not_planned {id : Identity} {row : DirectoryRow} {first last : Moment Database μ}
    (plan : RootPlan) :
    ¬ (loadVerifiedEntries prims id row : Program Database μ ρ ε ι _).Yields first (.error (.planned plan)) last := by
  intro h
  rw [loadVerifiedEntries, Program.yields_bind_iff] at h
  obtain ⟨middle, found, _, h⟩ := h
  cases hroot : directoryMerkleRoot prims (found.map StoredEntry.entry) with
  | error error =>
      rw [hroot] at h
      cases (Program.yields_done_iff.mp h).1
  | ok currentRoot =>
      rw [hroot] at h
      dsimp only at h
      split_ifs at h
      · cases (Program.yields_done_iff.mp h).1
      · obtain ⟨late, planning, hplanning, hdone⟩ := Program.yields_bind_iff.mp h
        cases (Program.yields_done_iff.mp hdone).1
        rw [rootMismatch, Program.yields_bind_iff] at hplanning
        obtain ⟨_, found, _, hplanning⟩ := hplanning
        cases found with
        | none => cases (Program.yields_done_iff.mp hplanning).1
        | some current =>
            dsimp only at hplanning
            split_ifs at hplanning
            · cases (Program.yields_done_iff.mp hplanning).1
            · cases (Program.yields_done_iff.mp hplanning).1

theorem planLevel_ne_planned {replacement : Replacement} {id : Identity} {row : DirectoryRow}
    {stored : List StoredEntry} (plan : RootPlan) :
    planLevel prims edit replacement id row stored ≠ .error (.planned plan) := by
  unfold planLevel
  cases editEntries edit replacement id stored with
  | none => simp
  | some edited =>
      dsimp only
      cases directoryMerkleRoot prims edited.1 with
      | error error => simp
      | ok newRoot =>
          dsimp only
          split_ifs
          · simp
          · simp

theorem readOn_loadVerifiedEntries_ok {db : Database} {id : Identity} {row : DirectoryRow}
    (h : directoryMerkleRoot prims ((db.tree.storedEntries id).map StoredEntry.entry) = .ok row.dataRoot) :
    (loadVerifiedEntries prims id row : Program Database μ ρ ε ι _).readOn db =
      some (.ok (db.tree.storedEntries id)) := by
  rw [loadVerifiedEntries, Program.readOn_bind]
  simp only [loadDirectoryEntries, Program.query, Program.readOn_read, Program.readOn_done, Option.bind_some]
  rw [h]
  dsimp only
  rw [if_pos rfl]
  rfl

theorem climb_of_yields {fuel : Nat} {id : Identity} {visited : List Identity} {replacement : Replacement}
    {directories : List DirectoryUpdate} {links : List LinkUpdate} {plan : RootPlan} {first last : Moment Database μ}
    (h : (walkAncestors prims filesystemId edit fuel id visited replacement directories links :
      Program Database μ ρ ε ι _).Yields first (.planned plan) last) :
    ∃ updates more, plan.directories = directories ++ updates ∧ plan.links = links ++ more ∧
      Climb prims filesystemId edit (ReadBetween first last) id replacement updates more plan.root ∧
      updates.length ≤ fuel ∧ (updates.map DirectoryUpdate.directoryId).Nodup ∧
      ∀ update ∈ updates, update.directoryId ∉ visited := by
  induction fuel generalizing id visited replacement directories links first with
  | zero => cases (Program.yields_done_iff.mp h).1
  | succ fuel ih =>
      rw [walkAncestors] at h
      split_ifs at h with hvisited
      · cases (Program.yields_done_iff.mp h).1
      rw [Program.yields_bind_iff] at h
      obtain ⟨early, found, hfound, h⟩ := h
      obtain ⟨hearly, rfl⟩ := yields_loadDirectory_iff.mp hfound
      cases hrow : early.state.tree.directories.lookup id with
      | none =>
          rw [hrow] at h
          cases (Program.yields_done_iff.mp h).1
      | some row =>
          rw [hrow] at h
          dsimp only at h
          split_ifs at h with hother
          · cases (Program.yields_done_iff.mp h).1
          rw [not_or, not_not, not_not] at hother
          rw [Program.yields_bind_iff] at h
          obtain ⟨late, result, hresult, h⟩ := h
          cases result with
          | error planning =>
              -- what ends a verification is no plan
              obtain ⟨hplanning, rfl⟩ := Program.yields_done_iff.mp h
              subst hplanning
              exact absurd hresult (loadVerifiedEntries_not_planned plan)
          | ok stored =>
              obtain ⟨hlate, hstored, hverified⟩ := yields_loadVerifiedEntries hresult
              dsimp only at h
              cases hlevel : planLevel prims edit replacement id row stored with
              | error planning =>
                  rw [hlevel] at h
                  obtain ⟨hplanning, rfl⟩ := Program.yields_done_iff.mp h
                  subst hplanning
                  exact absurd hlevel (planLevel_ne_planned plan)
              | ok level =>
                  obtain ⟨update, link⟩ := level
                  rw [hlevel] at h
                  dsimp only at h
                  obtain ⟨_, _, _, _, _, hupdate⟩ := planLevel_eq_ok.mp hlevel
                  have hid : update.directoryId = id := by rw [hupdate]
                  have hfree : update.directoryId ∉ visited := by
                    rw [hid]
                    exact fun hmem => hvisited (List.contains_iff_mem.mpr hmem)
                  cases hparent : row.parentId with
                  | none =>
                      rw [hparent] at h
                      obtain ⟨hplan, rfl⟩ := Program.yields_done_iff.mp h
                      cases hplan
                      refine ⟨[update], link, rfl, rfl, .top ⟨early, last, hearly, hlate, .refl _, hrow, hstored⟩ hother.1
                        hother.2 hverified hlevel hparent, Nat.succ_le_succ (Nat.zero_le _), List.nodup_singleton _, ?_⟩
                      intro other hmem
                      rw [List.mem_singleton.mp hmem]
                      exact hfree
                  | some parentId =>
                      rw [hparent] at h
                      have hend := Program.Yields.before h
                      obtain ⟨updates, more, hdirectories, hlinks, hclimb, hlength, hnodup, hunvisited⟩ := ih h
                      refine ⟨update :: updates, link ++ more, ?_, ?_, .up ⟨early, late, hearly, hlate, hend, hrow, hstored⟩
                        hother.1 hother.2 hverified hlevel hparent (hclimb.mono ?_), Nat.succ_le_succ hlength, ?_, ?_⟩
                      · rw [hdirectories, List.append_assoc, List.singleton_append]
                      · rw [hlinks, List.append_assoc]
                      · intro found row stored _ hread
                        obtain ⟨early', late', hfirst, hrest⟩ := hread
                        exact ⟨early', late', (hearly.trans hlate).trans hfirst, hrest⟩
                      · rw [List.map_cons, List.nodup_cons]
                        refine ⟨?_, hnodup⟩
                        intro hmem
                        obtain ⟨other, hother', hsame⟩ := List.mem_map.mp hmem
                        exact hunvisited other hother' (by rw [hsame, hid]; exact List.mem_cons_self)
                      · intro other hmem
                        rcases List.mem_cons.mp hmem with rfl | hrest
                        · exact hfree
                        · exact fun hvisit => hunvisited other hrest (List.mem_cons_of_mem _ hvisit)

theorem readOn_of_climb {db : Database} {id : Identity} {replacement : Replacement} {updates : List DirectoryUpdate}
    {more : List LinkUpdate} {root : Digest}
    (h : Climb prims filesystemId edit db.tree.Reads id replacement updates more root) {fuel : Nat}
    {visited : List Identity} {directories : List DirectoryUpdate} {links : List LinkUpdate}
    (hlength : updates.length ≤ fuel) (hnodup : (updates.map DirectoryUpdate.directoryId).Nodup)
    (hunvisited : ∀ update ∈ updates, update.directoryId ∉ visited) :
    (walkAncestors prims filesystemId edit fuel id visited replacement directories links :
      Program Database μ ρ ε ι _).readOn db = some (.planned ⟨directories ++ updates, links ++ more, root⟩) := by
  induction h generalizing fuel visited directories links with
  | @top id replacement row stored update link hread hfilesystem hactive hverified hlevel hparent =>
      obtain ⟨hrow, rfl⟩ := hread
      obtain ⟨_, _, _, _, _, hupdate⟩ := planLevel_eq_ok.mp hlevel
      have hid : update.directoryId = id := by rw [hupdate]
      obtain ⟨fuel, rfl⟩ := Nat.exists_eq_succ_of_ne_zero (show fuel ≠ 0 by simp at hlength; omega)
      have hfree : visited.contains id = false := by
        rw [Bool.eq_false_iff]
        exact fun hmem => hunvisited update (List.mem_singleton_self _) (hid ▸ List.contains_iff_mem.mp hmem)
      rw [walkAncestors, hfree, if_neg Bool.false_ne_true, Program.readOn_bind, readOn_loadDirectory, hrow,
        Option.bind_some]
      dsimp only
      rw [if_neg (by rw [not_or, not_not, not_not]; exact ⟨hfilesystem, hactive⟩), Program.readOn_bind,
        readOn_loadVerifiedEntries_ok hverified, Option.bind_some]
      dsimp only
      rw [hlevel]
      dsimp only
      rw [hparent]
      rfl
  | @up id parentId replacement row stored update link updates more root hread hfilesystem hactive hverified hlevel
      hparent habove ih =>
      obtain ⟨hrow, rfl⟩ := hread
      obtain ⟨_, _, _, _, _, hupdate⟩ := planLevel_eq_ok.mp hlevel
      have hid : update.directoryId = id := by rw [hupdate]
      obtain ⟨fuel, rfl⟩ := Nat.exists_eq_succ_of_ne_zero (show fuel ≠ 0 by simp at hlength; omega)
      rw [List.map_cons, List.nodup_cons] at hnodup
      have hfree : visited.contains id = false := by
        rw [Bool.eq_false_iff]
        exact fun hmem => hunvisited update List.mem_cons_self (hid ▸ List.contains_iff_mem.mp hmem)
      rw [walkAncestors, hfree, if_neg Bool.false_ne_true, Program.readOn_bind, readOn_loadDirectory, hrow,
        Option.bind_some]
      dsimp only
      rw [if_neg (by rw [not_or, not_not, not_not]; exact ⟨hfilesystem, hactive⟩), Program.readOn_bind,
        readOn_loadVerifiedEntries_ok hverified, Option.bind_some]
      dsimp only
      rw [hlevel]
      dsimp only
      rw [hparent]
      dsimp only
      rw [ih (Nat.le_of_succ_le_succ hlength) hnodup.2, List.append_assoc, List.append_assoc, List.singleton_append]
      intro other hmem hvisit
      rcases List.mem_cons.mp hvisit with heq | hvisit
      · exact hnodup.1 (by rw [hid, ← heq]; exact List.mem_map_of_mem hmem)
      · exact hunvisited other (List.mem_cons_of_mem _ hmem) hvisit

end Planner

end Skydriver
