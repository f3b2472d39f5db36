import Skydriver.Control.ChainCommit
import Skydriver.Control.Recomputed

/-!
# What a rename planner read

The planner of renames reads the source chain, then the destination chain, then one listing for each directory of both,
all at different moments.  The two chains may disagree about the directories they share, and the depths by which the
planner orders its levels come from such chains.
-/

namespace Skydriver

/-- The directories of a chain with the rows they had when the planner climbed past them. -/
inductive ReadChain {μ : Type} (filesystemId : Identity) :
    Moment Database μ → Moment Database μ → Identity → List LoadedDirectory → Prop where
  | top {first moment last : Moment Database μ} {id : Identity} {row : DirectoryRow} (hfirst : first.Before moment)
      (hlast : moment.Before last) (hrow : moment.state.tree.directories.lookup id = some row)
      (hfilesystem : row.filesystemId = filesystemId) (hactive : row.state = .active) (hparent : row.parentId = none) :
      ReadChain filesystemId first last id [(id, row)]
  | up {first moment last : Moment Database μ} {id parentId : Identity} {row : DirectoryRow}
      {rest : List LoadedDirectory} (hfirst : first.Before moment)
      (hrow : moment.state.tree.directories.lookup id = some row) (hfilesystem : row.filesystemId = filesystemId)
      (hactive : row.state = .active) (hparent : row.parentId = some parentId)
      (habove : ReadChain filesystemId moment last parentId rest) :
      ReadChain filesystemId first last id ((id, row) :: rest)

namespace ReadChain

variable {μ : Type} {filesystemId id : Identity} {first last : Moment Database μ} {chain : List LoadedDirectory}

theorem before (h : ReadChain filesystemId first last id chain) : first.Before last := by
  induction h with
  | top hfirst hlast _ _ _ _ => exact hfirst.trans hlast
  | up hfirst _ _ _ _ _ ih => exact hfirst.trans ih

theorem row (h : ReadChain filesystemId first last id chain) {loaded : LoadedDirectory} (hmem : loaded ∈ chain) :
    ∃ moment, first.Before moment ∧ moment.Before last ∧
      moment.state.tree.directories.lookup loaded.1 = some loaded.2 := by
  induction h with
  | top hfirst hlast hrow _ _ _ =>
      rw [List.mem_singleton.mp hmem]
      exact ⟨_, hfirst, hlast, hrow⟩
  | up hfirst hrow _ _ _ habove ih =>
      rcases List.mem_cons.mp hmem with rfl | hrest
      · exact ⟨_, hfirst, habove.before, hrow⟩
      · obtain ⟨moment, hmoment, hlast, hfound⟩ := ih hrest
        exact ⟨moment, hfirst.trans hmoment, hlast, hfound⟩

theorem active (h : ReadChain filesystemId first last id chain) {loaded : LoadedDirectory} (hmem : loaded ∈ chain) :
    loaded.2.state = .active := by
  induction h with
  | top _ _ _ _ hactive _ =>
      rw [List.mem_singleton.mp hmem]
      exact hactive
  | up _ _ _ hactive _ _ ih =>
      rcases List.mem_cons.mp hmem with rfl | hrest
      · exact hactive
      · exact ih hrest

theorem head (h : ReadChain filesystemId first last id chain) : id ∈ chain.map Prod.fst := by
  cases h with
  | top _ _ _ _ _ _ => exact List.mem_cons_self
  | up _ _ _ _ _ _ => exact List.mem_cons_self

theorem parent (h : ReadChain filesystemId first last id chain) {loaded : LoadedDirectory} (hmem : loaded ∈ chain)
    {parentId : Identity} (hparent : loaded.2.parentId = some parentId) : parentId ∈ chain.map Prod.fst := by
  induction h with
  | top _ _ _ _ _ hnone =>
      rw [List.mem_singleton.mp hmem, hnone] at hparent
      cases hparent
  | up _ _ _ _ hup habove ih =>
      rw [List.map_cons]
      rcases List.mem_cons.mp hmem with rfl | hrest
      · rw [hup] at hparent
        cases hparent
        exact List.mem_cons_of_mem _ habove.head
      · exact List.mem_cons_of_mem _ (ih hrest)

/-- Every directory of a chain but the first comes right after a child of it. -/
theorem child (h : ReadChain filesystemId first last id chain) (hnodup : (chain.map Prod.fst).Nodup) {above : Identity}
    (hmem : above ∈ chain.map Prod.fst) (hne : above ≠ id) :
    ∃ loaded ∈ chain, loaded.2.parentId = some above ∧ depthIn chain loaded.1 = depthIn chain above + 1 := by
  induction h with
  | top _ _ _ _ _ _ =>
      rw [List.map_singleton, List.mem_singleton] at hmem
      exact absurd hmem hne
  | @up first moment last id parentId row rest _ _ _ _ hup habove ih =>
      rw [List.map_cons, List.nodup_cons] at hnodup
      rw [List.map_cons, List.mem_cons] at hmem
      have hrest := hmem.resolve_left hne
      have hlength : (rest.map Prod.fst).idxOf above < rest.length := by
        rw [← List.length_map (f := Prod.fst)]
        exact List.idxOf_lt_length_of_mem hrest
      -- depths are counted from the end, which both chains share
      have hdepth : ∀ {found}, found ≠ id → depthIn ((id, row) :: rest) found = depthIn rest found := by
        intro found hfound
        simp only [depthIn, List.map_cons, List.length_cons, List.idxOf_cons_ne _ (Ne.symm hfound)]
        omega
      by_cases hparent : above = parentId
      · subst hparent
        refine ⟨(id, row), List.mem_cons_self, hup, ?_⟩
        rw [hdepth hne]
        have hfirst : (rest.map Prod.fst).idxOf above = 0 := by
          cases habove with
          | top _ _ _ _ _ _ => exact List.idxOf_cons_self
          | up _ _ _ _ _ _ => exact List.idxOf_cons_self
        simp only [depthIn, List.map_cons, List.length_cons, List.idxOf_cons_self, hfirst]
        omega
      · obtain ⟨loaded, hloaded, hbelow, hsame⟩ := ih hnodup.2 hrest hparent
        refine ⟨loaded, List.mem_cons_of_mem _ hloaded, hbelow, ?_⟩
        rw [hdepth hne, hdepth, hsame]
        intro heq
        have hinside := List.mem_map_of_mem (f := Prod.fst) hloaded
        exact hnodup.1 (heq ▸ hinside)

theorem ancestorChain (h : ReadChain filesystemId first last id chain) {tree : Tree}
    (hcurrent : ∀ loaded ∈ chain, tree.directories.lookup loaded.1 = some loaded.2) :
    AncestorChain tree filesystemId id chain := by
  induction h with
  | top _ _ _ hfilesystem hactive hparent =>
      exact .top (hcurrent _ (List.mem_singleton_self _)) hfilesystem hactive hparent
  | up _ _ hfilesystem hactive hparent _ ih =>
      exact .up (hcurrent _ List.mem_cons_self) hfilesystem hactive hparent
        (ih fun loaded hloaded => hcurrent loaded (List.mem_cons_of_mem _ hloaded))

end ReadChain

section Reads

variable {μ ρ ε ι : Type} {prims : Primitives} {filesystemId : Identity}

theorem readChain_of_loadAncestors {fuel : Nat} {current : Identity} {chain found : List LoadedDirectory}
    {first last : Moment Database μ} (hnodup : (chain.map Prod.fst).Nodup)
    (h : (loadAncestors filesystemId fuel current chain : Program Database μ ρ ε ι _).Yields first (some found) last) :
    found = [] ∨ ∃ rest, found = chain ++ rest ∧ ReadChain filesystemId first last current rest ∧
      (found.map Prod.fst).Nodup ∧ rest.length ≤ fuel := by
  induction fuel generalizing current chain first with
  | zero => cases (Program.yields_done_iff.mp h).1
  | succ fuel ih =>
      rw [loadAncestors] at h
      split_ifs at h with hvisited
      · cases (Program.yields_done_iff.mp h).1
      rw [Program.yields_bind_iff] at h
      obtain ⟨middle, row, hrow, h⟩ := h
      obtain ⟨hmiddle, rfl⟩ := yields_loadDirectory_iff.mp hrow
      cases hlookup : middle.state.tree.directories.lookup current with
      | none =>
          rw [hlookup] at h
          cases (Program.yields_done_iff.mp h).1
          exact .inl rfl
      | some row =>
          rw [hlookup] at h
          dsimp only at h
          split_ifs at h with hother
          · cases (Program.yields_done_iff.mp h).1
            exact .inl rfl
          rw [not_or, not_not, not_not] at hother
          have hnext : ((chain ++ [(current, row)]).map Prod.fst).Nodup := by
            rw [List.map_append, List.nodup_append]
            refine ⟨hnodup, List.nodup_singleton _, ?_⟩
            intro left hleft right hright heq
            rw [List.map_singleton, List.mem_singleton] at hright
            rw [heq, hright] at hleft
            exact hvisited (List.contains_iff_mem.mpr hleft)
          cases hparent : row.parentId with
          | none =>
              rw [hparent] at h
              obtain ⟨hfound, rfl⟩ := Program.yields_done_iff.mp h
              cases hfound
              exact .inr ⟨_, rfl, .top hmiddle (.refl _) hlookup hother.1 hother.2 hparent, hnext,
                Nat.succ_le_succ (Nat.zero_le _)⟩
          | some parentId =>
              rw [hparent] at h
              rcases ih hnext h with hnil | ⟨rest, hfound, habove, hdistinct, hlength⟩
              · exact .inl hnil
              · refine .inr ⟨(current, row) :: rest, ?_, .up hmiddle hlookup hother.1 hother.2 hparent habove, hdistinct,
                  Nat.succ_le_succ hlength⟩
                rw [hfound, List.append_assoc, List.singleton_append]

/-- What may have been read of the listing of a loaded directory. -/
def ListedBetween (prims : Primitives) (first last : Moment Database μ) (loaded : LoadedDirectory)
    (stored : List StoredEntry) : Prop :=
  ∃ late : Moment Database μ, first.Before late ∧ late.Before last ∧ stored = late.state.tree.storedEntries loaded.1 ∧
    directoryMerkleRoot prims (stored.map StoredEntry.entry) = .ok loaded.2.dataRoot

theorem listed_of_loadListings {rows : List LoadedDirectory} {listings : List (LoadedDirectory × List StoredEntry)}
    {first last : Moment Database μ}
    (h : (loadListings prims rows : Program Database μ ρ ε ι _).Yields first (.ok listings) last) :
    listings.map Prod.fst = rows ∧ ∀ listing ∈ listings, ListedBetween prims first last listing.1 listing.2 := by
  induction rows generalizing listings first with
  | nil =>
      obtain ⟨heq, _⟩ := Program.yields_done_iff.mp h
      cases heq
      exact ⟨rfl, fun listing hmem => absurd hmem List.not_mem_nil⟩
  | cons loaded rows ih =>
      rw [loadListings, Program.yields_bind_iff] at h
      obtain ⟨middle, verified, hverified, h⟩ := h
      cases verified with
      | error planning => cases (Program.yields_done_iff.mp h).1
      | ok stored =>
          dsimp only at h
          obtain ⟨late, rest, hrest, h⟩ := Program.yields_bind_iff.mp h
          cases rest with
          | error planning => cases (Program.yields_done_iff.mp h).1
          | ok found =>
              obtain ⟨heq, rfl⟩ := Program.yields_done_iff.mp h
              cases heq
              obtain ⟨hfirst, hstored, hroot⟩ := yields_loadVerifiedEntries hverified
              obtain ⟨hrows, hlisted⟩ := ih hrest
              refine ⟨by rw [List.map_cons, hrows], ?_⟩
              intro listing hmem
              rcases List.mem_cons.mp hmem with rfl | hmem
              · exact ⟨middle, hfirst, hrest.before, hstored, hroot⟩
              · obtain ⟨moment, hmoment, hrest⟩ := hlisted listing hmem
                exact ⟨moment, hfirst.trans hmoment, hrest⟩

/-! ### The same reads on one state -/

theorem AncestorChain.readOn_loadAncestors {db : Database} {id : Identity} {rest : List LoadedDirectory}
    (h : AncestorChain db.tree filesystemId id rest) {fuel : Nat} {chain : List LoadedDirectory}
    (hlength : rest.length ≤ fuel) (hnodup : ((chain ++ rest).map Prod.fst).Nodup) :
    (loadAncestors filesystemId fuel id chain : Program Database μ ρ ε ι _).readOn db = some (some (chain ++ rest)) := by
  induction h generalizing fuel chain with
  | @top id row hrow hfilesystem hactive hparent =>
      obtain ⟨fuel, rfl⟩ := Nat.exists_eq_succ_of_ne_zero (Nat.ne_of_gt hlength)
      have hfree : (chain.map Prod.fst).contains id = false := by
        rw [List.map_append, List.nodup_append] at hnodup
        rw [Bool.eq_false_iff]
        exact fun hmem => hnodup.2.2 id (List.contains_iff_mem.mp hmem) id List.mem_cons_self rfl
      rw [loadAncestors, hfree, if_neg Bool.false_ne_true, Program.readOn_bind, readOn_loadDirectory, hrow,
        Option.bind_some]
      dsimp only
      rw [if_neg (by rw [not_or, not_not, not_not]; exact ⟨hfilesystem, hactive⟩), hparent]
      rfl
  | @up id parentId row rest hrow hfilesystem hactive hparent _ ih =>
      obtain ⟨fuel, rfl⟩ := Nat.exists_eq_succ_of_ne_zero (Nat.ne_of_gt (Nat.lt_of_lt_of_le (Nat.succ_pos _) hlength))
      have hfree : (chain.map Prod.fst).contains id = false := by
        rw [List.map_append, List.nodup_append] at hnodup
        rw [Bool.eq_false_iff]
        exact fun hmem => hnodup.2.2 id (List.contains_iff_mem.mp hmem) id List.mem_cons_self rfl
      rw [loadAncestors, hfree, if_neg Bool.false_ne_true, Program.readOn_bind, readOn_loadDirectory, hrow,
        Option.bind_some]
      dsimp only
      rw [if_neg (by rw [not_or, not_not, not_not]; exact ⟨hfilesystem, hactive⟩), hparent]
      dsimp only
      rw [List.append_cons] at hnodup
      rw [ih (Nat.le_of_succ_le_succ hlength) hnodup, ← List.append_cons]

theorem AncestorChain.readOn_loadAncestorChain {db : Database} {id : Identity} {chain : List LoadedDirectory}
    (h : AncestorChain db.tree filesystemId id chain) (hlength : chain.length ≤ maximumDirectoryDepth) :
    (loadAncestorChain filesystemId id : Program Database μ ρ ε ι _).readOn db = some (some chain) :=
  h.readOn_loadAncestors hlength h.nodup

/-- On a state in which the roots of the rows are those of the listings, every listing passes. -/
theorem readOn_loadListings {db : Database} {rows : List LoadedDirectory}
    (h : ∀ loaded ∈ rows, directoryMerkleRoot prims (db.tree.listing loaded.1) = .ok loaded.2.dataRoot) :
    (loadListings prims rows : Program Database μ ρ ε ι _).readOn db =
      some (.ok (rows.map fun row => (row, db.tree.storedEntries row.1))) := by
  induction rows with
  | nil => rfl
  | cons row rows ih =>
      rw [List.forall_mem_cons] at h
      rw [loadListings, Program.readOn_bind, readOn_loadVerifiedEntries_ok h.1, Option.bind_some]
      dsimp only
      rw [Program.readOn_bind, ih h.2]
      rfl

end Reads

/-! ### Levels in their order -/

section Levels

variable {prims : Primitives} {target : RenameTarget} {moved : DirectoryMerkleEntry}

theorem renameLevels_extends {listings : List (LoadedDirectory × List StoredEntry)}
    {updates updates' : List DirectoryUpdate} {links links' : List LinkUpdate}
    (h : renameLevels prims target moved listings updates links = .ok (updates', links')) : updates <+: updates' := by
  induction listings generalizing updates links with
  | nil =>
      cases h
      exact List.prefix_refl _
  | cons listing rest ih =>
      obtain ⟨⟨id, row⟩, stored⟩ := listing
      rw [renameLevels] at h
      cases hroot : directoryMerkleRoot prims (renameEntries target moved updates id stored).1 with
      | error error =>
          rw [hroot] at h
          cases h
      | ok newRoot =>
          rw [hroot] at h
          dsimp only at h
          split_ifs at h
          · exact ih h
          · exact (List.prefix_append _ _).trans (ih h)

theorem renameLevels_mem {listings : List (LoadedDirectory × List StoredEntry)}
    {updates updates' : List DirectoryUpdate} {links links' : List LinkUpdate}
    (h : renameLevels prims target moved listings updates links = .ok (updates', links')) {update : DirectoryUpdate}
    (hmem : update ∈ updates') : update ∈ updates ∨ ∃ listing ∈ listings, listing.1.1 = update.directoryId := by
  induction listings generalizing updates links with
  | nil =>
      cases h
      exact .inl hmem
  | cons listing rest ih =>
      obtain ⟨⟨id, row⟩, stored⟩ := listing
      rw [renameLevels] at h
      cases hroot : directoryMerkleRoot prims (renameEntries target moved updates id stored).1 with
      | error error =>
          rw [hroot] at h
          cases h
      | ok newRoot =>
          rw [hroot] at h
          dsimp only at h
          split_ifs at h
          · rcases ih h with hold | ⟨later, hlater, hid⟩
            · exact .inl hold
            · exact .inr ⟨later, List.mem_cons_of_mem _ hlater, hid⟩
          · rcases ih h with hnew | ⟨later, hlater, hid⟩
            · rcases List.mem_append.mp hnew with hold | hhere
              · exact .inl hold
              · rw [List.mem_singleton.mp hhere]
                exact .inr ⟨_, List.mem_cons_self, rfl⟩
            · exact .inr ⟨later, List.mem_cons_of_mem _ hlater, hid⟩

/-- The level of one directory: its new listing, with the roots that the levels before it found. -/
structure LevelOf (prims : Primitives) (target : RenameTarget) (moved : DirectoryMerkleEntry)
    (updates : List DirectoryUpdate) (listing : LoadedDirectory × List StoredEntry) (seen : List DirectoryUpdate)
    (newRoot : Digest) : Prop where
  earlier : seen <+: updates
  computed : directoryMerkleRoot prims (renameEntries target moved seen listing.1.1 listing.2).1 = .ok newRoot
  updated : newRoot ≠ listing.1.2.dataRoot → ⟨listing.1.1, listing.1.2.revision, listing.1.2.dataRoot, newRoot,
    (renameEntries target moved seen listing.1.1 listing.2).1⟩ ∈ updates

/-- Every directory has its level, which sees every update but its own and those of directories after it. -/
theorem levelOf_of_renameLevels {after : LoadedDirectory × List StoredEntry → LoadedDirectory × List StoredEntry → Prop}
    {listings : List (LoadedDirectory × List StoredEntry)} (hordered : listings.Pairwise after)
    {updates updates' : List DirectoryUpdate} {links links' : List LinkUpdate}
    (h : renameLevels prims target moved listings updates links = .ok (updates', links'))
    {listing : LoadedDirectory × List StoredEntry} (hmem : listing ∈ listings) :
    ∃ seen newRoot, LevelOf prims target moved updates' listing seen newRoot ∧
      ∀ update ∈ updates', update ∈ seen ∨ update.directoryId = listing.1.1 ∨
        ∃ later, after listing later ∧ later.1.1 = update.directoryId := by
  induction listings generalizing updates links with
  | nil => exact absurd hmem List.not_mem_nil
  | cons head rest ih =>
      obtain ⟨hafter, hrest⟩ := List.pairwise_cons.mp hordered
      have hwhole := renameLevels_extends h
      obtain ⟨⟨id, row⟩, stored⟩ := head
      rw [renameLevels] at h
      cases hroot : directoryMerkleRoot prims (renameEntries target moved updates id stored).1 with
      | error error =>
          rw [hroot] at h
          cases h
      | ok newRoot =>
          rw [hroot] at h
          dsimp only at h
          rcases List.mem_cons.mp hmem with rfl | hlater
          · refine ⟨updates, newRoot, ⟨hwhole, hroot, ?_⟩, ?_⟩
            · intro hchanged
              rw [if_neg hchanged] at h
              exact (renameLevels_extends h).subset (List.mem_append_right _ (List.mem_singleton_self _))
            · intro update hupdate
              split_ifs at h
              · rcases renameLevels_mem h hupdate with hold | ⟨later, hlater, hid⟩
                · exact .inl hold
                · exact .inr (.inr ⟨later, hafter later hlater, hid⟩)
              · rcases renameLevels_mem h hupdate with hnew | ⟨later, hlater, hid⟩
                · rcases List.mem_append.mp hnew with hold | hhere
                  · exact .inl hold
                  · rw [List.mem_singleton.mp hhere]
                    exact .inr (.inl rfl)
                · exact .inr (.inr ⟨later, hafter later hlater, hid⟩)
          · split_ifs at h
            · exact ih hrest h hlater
            · exact ih hrest h hlater

end Levels

/-! ### The checks before the levels -/

section Checks

variable {prims : Primitives} {target : RenameTarget} {expectedSourceRevision : Nat}
  {source destination : List LoadedDirectory} {listings : List (LoadedDirectory × List StoredEntry)} {plan : RootPlan}

/-- What the planner found out before it computed the levels, by the listings it read. -/
structure RenameChecked (prims : Primitives) (target : RenameTarget) (expectedSourceRevision : Nat)
    (source destination : List LoadedDirectory) (listings : List (LoadedDirectory × List StoredEntry)) (plan : RootPlan)
    (moved : StoredEntry) : Prop where
  found : ∀ listing ∈ listings, listing.1.1 = target.sourceDirectoryId →
    (listing.2.find? fun stored => entryName stored.entry == target.sourceName) = some moved
  revision : moved.revision = expectedSourceRevision
  free : ∀ listing ∈ listings, listing.1.1 = target.destinationDirectoryId → ∀ stored ∈ listing.2,
    entryName stored.entry ≠ target.destinationName
  acyclic : ∀ child, moved.childId = some child → child ∉ destination.map Prod.fst
  levels : renameLevels prims target (renamedEntry target.destinationName moved.entry)
    (deepestFirst source destination listings) [] [] = .ok (plan.directories, plan.links)

theorem find_loaded (hnodup : (listings.map fun listing => listing.1.1).Nodup)
    {listing : LoadedDirectory × List StoredEntry} (hmem : listing ∈ listings) :
    ((listings.find? fun other => other.1.1 == listing.1.1).map Prod.snd).getD [] = listing.2 := by
  cases hfind : listings.find? fun other => other.1.1 == listing.1.1 with
  | none =>
      rw [List.find?_eq_none] at hfind
      exact absurd (beq_self_eq_true _) (hfind listing hmem)
  | some other =>
      have hid := List.find?_some hfind
      rw [beq_iff_eq] at hid
      have hsame := List.inj_on_of_nodup_map hnodup (List.mem_of_find?_eq_some hfind) hmem hid
      rw [hsame, Option.map_some, Option.getD_some]

theorem renameChecked_of_planRename (hnodup : (listings.map fun listing => listing.1.1).Nodup)
    (h : planRename prims target expectedSourceRevision source destination listings = .planned plan) :
    ∃ moved, RenameChecked prims target expectedSourceRevision source destination listings plan moved := by
  rw [planRename] at h
  dsimp only at h
  split at h
  · cases h
  rename_i moved hmoved
  obtain ⟨hfind, hrevision⟩ := Option.filter_eq_some_iff.mp hmoved
  split_ifs at h with htaken hinside
  refine ⟨moved, ?_, beq_iff_eq.mp hrevision, ?_, ?_, ?_⟩
  · intro listing hmem hid
    rw [← hfind, ← hid, find_loaded hnodup hmem]
  · intro listing hmem hid stored hstored hname
    apply htaken
    rw [← hid, find_loaded hnodup hmem, List.any_eq_true]
    exact ⟨stored, hstored, by rw [hname, beq_self_eq_true]⟩
  · intro child hchild hmem
    apply hinside
    cases hentry : moved.entry with
    | file _ _ _ _ _ _ =>
        rw [StoredEntry.childId, hentry] at hchild
        cases hchild
    | directory name found dataRoot =>
        rw [StoredEntry.childId, hentry] at hchild
        cases hchild
        exact List.contains_iff_mem.mpr hmem
  · split at h
    · rename_i planning herror
      rw [h] at herror
      exact absurd herror (renameLevels_ne_planned plan)
    · rename_i updates links hok
      split at h
      · cases h
      · cases h
        exact hok

end Checks

end Skydriver
