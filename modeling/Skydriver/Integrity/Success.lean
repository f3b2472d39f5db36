import Skydriver.Integrity.Directory
import Skydriver.Lib.CarryStack

/-!
# When a directory has a root

`directoryMerkleRoot` succeeds exactly on bounded lists of valid entries with distinct names, and it does not depend on
the order in which the entries are listed.  The subtrees of the accumulator always cover the entries pushed so far, so
neither of its merge loops can fail.
-/

namespace Skydriver

open Checked

theorem isCanonicalName_length {prims : Primitives} {name : Text} (h : isCanonicalName prims name = true) :
    name.length ≤ maximumNameBytes := by
  simp only [isCanonicalName, Bool.not_eq_true', Bool.or_eq_false_iff, decide_eq_false_iff_not] at h
  omega

theorem validateDirectoryEntry_name {prims : Primitives} {entry : DirectoryMerkleEntry}
    (h : validateDirectoryEntry prims entry = .ok ()) : isCanonicalName prims (entryName entry) = true := by
  simp only [validateDirectoryEntry, ensure_bind_eq_ok] at h
  exact h.1

theorem name_length_lt {prims : Primitives} {entry : DirectoryMerkleEntry}
    (h : validateDirectoryEntry prims entry = .ok ()) : (entryName entry).length < 2 ^ 32 := by
  have hbound := isCanonicalName_length (validateDirectoryEntry_name h)
  simp only [maximumNameBytes] at hbound
  omega

namespace DirectoryMerkleAccumulator

/-- The subtrees cover the leaves below `covered` contiguously, the most recent first. -/
def Contiguous : List FileSubtree → Nat → Prop
  | [], covered => covered = 0
  | subtree :: rest, covered => subtree.first + subtree.leaves = covered ∧ Contiguous rest subtree.first

theorem mergeSubtrees_contiguous (prims : Primitives) (domain : List UInt8) {left node : FileSubtree}
    {rest : List FileSubtree} {covered : Nat} (h : Contiguous (node :: left :: rest) covered)
    (hbound : covered < 2 ^ 64) :
    ∃ merged, mergeSubtrees prims domain left node = .ok merged ∧ Contiguous (merged :: rest) covered := by
  obtain ⟨hend, hadjacent, hrest⟩ := h
  have hfirst : checkedAdd left.first left.leaves = some node.first := by
    rw [checkedAdd, if_pos (by omega), hadjacent]
  have hleaves : checkedAdd left.leaves node.leaves = some (left.leaves + node.leaves) := by
    rw [checkedAdd, if_pos (by omega)]
  simp only [mergeSubtrees, hfirst, hleaves, beq_self_eq_true, ensure_true, ok_bind, Option.orFail]
  exact ⟨_, rfl, by simp only; omega, hrest⟩

theorem pushSubtree_eq_carry (prims : Primitives) :
    pushSubtree prims = CarryStack.carry FileSubtree.leaves (mergeSubtrees prims directoryNodeDomain) := by
  funext stack node
  induction stack generalizing node with
  | nil => rfl
  | cons left rest ih => simp only [pushSubtree, CarryStack.carry, ih]

theorem foldSubtrees_eq_collapse (prims : Primitives) :
    foldSubtrees prims = CarryStack.collapse (mergeSubtrees prims directoryNodeDomain) := by
  funext right stack
  induction stack generalizing right with
  | nil => rfl
  | cons left rest ih => simp only [foldSubtrees, CarryStack.collapse, ih]

theorem pushSubtree_contiguous (prims : Primitives) {subtrees : List FileSubtree} {node : FileSubtree} {covered : Nat}
    (h : Contiguous (node :: subtrees) covered) (hbound : covered < 2 ^ 64) :
    ∃ result, pushSubtree prims subtrees node = .ok result ∧ Contiguous result covered := by
  rw [pushSubtree_eq_carry]
  obtain ⟨top, rest, hcarry, hcovers⟩ := CarryStack.carry_covers (fun stack top => Contiguous (top :: stack) covered)
    (fun _ _ _ hstack => mergeSubtrees_contiguous prims directoryNodeDomain hstack hbound) h
  exact ⟨top :: rest, hcarry, hcovers⟩

theorem foldSubtrees_contiguous (prims : Primitives) {right : FileSubtree} {rest : List FileSubtree} {covered : Nat}
    (h : Contiguous (right :: rest) covered) (hbound : covered < 2 ^ 64) :
    ∃ result, foldSubtrees prims right rest = .ok result := by
  rw [foldSubtrees_eq_collapse]
  obtain ⟨last, hcollapse, _⟩ := CarryStack.collapse_covers (fun stack top => Contiguous (top :: stack) covered)
    (fun _ _ _ hstack => mergeSubtrees_contiguous prims directoryNodeDomain hstack hbound) h
  exact ⟨last, hcollapse⟩

/-- What holds of every accumulator the code can build. -/
structure WellFormed (accumulator : DirectoryMerkleAccumulator) : Prop where
  bounded : accumulator.entryCount ≤ maximumDirectoryEntries
  contiguous : Contiguous accumulator.subtrees accumulator.entryCount

theorem new_wellFormed : WellFormed new := ⟨Nat.zero_le _, rfl⟩

theorem push_eq_ok {prims : Primitives} {accumulator result : DirectoryMerkleAccumulator}
    {entry : DirectoryMerkleEntry} :
    push prims accumulator entry = .ok result ↔
      validateDirectoryEntry prims entry = .ok () ∧
      (∀ previous, accumulator.previousName = some previous → previous < entryName entry) ∧
      accumulator.entryCount < maximumDirectoryEntries ∧
      ∃ subtrees, pushSubtree prims accumulator.subtrees
          { first := accumulator.entryCount, leaves := 1, digest := prims.sha256 (entryPreimage entry) } =
            .ok subtrees ∧
        result = { entryCount := accumulator.entryCount + 1, previousName := some (entryName entry), subtrees } := by
  simp only [push, bind_eq_ok, ensure_eq_ok, hashDirectoryEntry, Option.all_eq_true, decide_eq_true_eq,
    Except.ok.injEq]
  constructor
  · rintro ⟨_, hvalid, _, horder, _, hlimit, digest, ⟨_, _, rfl⟩, subtrees, hsubtrees, rfl⟩
    exact ⟨hvalid, horder, hlimit, subtrees, hsubtrees, rfl⟩
  · rintro ⟨hvalid, horder, hlimit, subtrees, hsubtrees, rfl⟩
    exact ⟨(), hvalid, (), horder, (), hlimit, _, ⟨(), name_length_lt hvalid, rfl⟩, subtrees, hsubtrees, rfl⟩

/-- Pushing succeeds exactly on a valid entry after the previous name, below the limit. -/
theorem push_succeeds_iff {prims : Primitives} {accumulator : DirectoryMerkleAccumulator}
    {entry : DirectoryMerkleEntry} (hwf : WellFormed accumulator) :
    (∃ result, push prims accumulator entry = .ok result ∧ WellFormed result ∧
      result.entryCount = accumulator.entryCount + 1 ∧ result.previousName = some (entryName entry)) ↔
      validateDirectoryEntry prims entry = .ok () ∧
      (∀ previous, accumulator.previousName = some previous → previous < entryName entry) ∧
      accumulator.entryCount < maximumDirectoryEntries := by
  constructor
  · rintro ⟨result, hpush, _⟩
    obtain ⟨hvalid, horder, hlimit, _⟩ := push_eq_ok.mp hpush
    exact ⟨hvalid, horder, hlimit⟩
  · rintro ⟨hvalid, horder, hlimit⟩
    have hbound : accumulator.entryCount + 1 < 2 ^ 64 := by
      simp only [maximumDirectoryEntries] at hlimit
      omega
    let leaf : FileSubtree :=
      { first := accumulator.entryCount, leaves := 1, digest := prims.sha256 (entryPreimage entry) }
    have hleaf : Contiguous (leaf :: accumulator.subtrees) (accumulator.entryCount + 1) := ⟨rfl, hwf.contiguous⟩
    obtain ⟨subtrees, hsubtrees, hcontiguous⟩ := pushSubtree_contiguous prims hleaf hbound
    exact ⟨_, push_eq_ok.mpr ⟨hvalid, horder, hlimit, subtrees, hsubtrees, rfl⟩, ⟨hlimit, hcontiguous⟩, rfl, rfl⟩

theorem push_wellFormed {prims : Primitives} {accumulator result : DirectoryMerkleAccumulator}
    {entry : DirectoryMerkleEntry} (hwf : WellFormed accumulator) (h : push prims accumulator entry = .ok result) :
    WellFormed result ∧ result.entryCount = accumulator.entryCount + 1 ∧
      result.previousName = some (entryName entry) := by
  obtain ⟨hvalid, horder, hlimit, _⟩ := push_eq_ok.mp h
  obtain ⟨result', hpush, hfacts⟩ := (push_succeeds_iff hwf).mpr ⟨hvalid, horder, hlimit⟩
  rw [h] at hpush
  cases hpush
  exact hfacts

theorem pushAll_succeeds_iff {prims : Primitives} {accumulator : DirectoryMerkleAccumulator}
    {entries : List DirectoryMerkleEntry} (hwf : WellFormed accumulator) :
    (∃ result, pushAll prims accumulator entries = .ok result) ↔
      (∀ entry ∈ entries, validateDirectoryEntry prims entry = .ok ()) ∧
      KeyOrder.StrictlyOrdered entryName entries ∧
      (∀ previous, accumulator.previousName = some previous → ∀ entry ∈ entries, previous < entryName entry) ∧
      accumulator.entryCount + entries.length ≤ maximumDirectoryEntries := by
  induction entries generalizing accumulator with
  | nil => simp [pushAll, KeyOrder.StrictlyOrdered, hwf.bounded]
  | cons entry entries ih =>
      constructor
      · rintro ⟨result, hresult⟩
        rw [pushAll, bind_eq_ok] at hresult
        obtain ⟨next, hpush, hrest⟩ := hresult
        obtain ⟨hwf', hcount, hname⟩ := push_wellFormed hwf hpush
        obtain ⟨hvalid, horder, hlimit, _⟩ := push_eq_ok.mp hpush
        obtain ⟨hvalids, hstrict, hprevious, hbound⟩ := (ih hwf').mp ⟨result, hrest⟩
        have hafter := hprevious _ hname
        refine ⟨List.forall_mem_cons.mpr ⟨hvalid, hvalids⟩, List.pairwise_cons.mpr ⟨hafter, hstrict⟩, ?_, ?_⟩
        · intro previous hsome other hother
          rcases List.mem_cons.mp hother with rfl | hother
          · exact horder previous hsome
          · exact List.lt_trans (horder previous hsome) (hafter other hother)
        · rw [List.length_cons]
          omega
      · rintro ⟨hvalids, hstrict, hprevious, hbound⟩
        obtain ⟨hvalid, hvalids⟩ := List.forall_mem_cons.mp hvalids
        obtain ⟨hafter, hstrict⟩ := List.pairwise_cons.mp hstrict
        rw [List.length_cons] at hbound
        obtain ⟨next, hpush, hwf', hcount, hname⟩ := (push_succeeds_iff hwf).mpr
          ⟨hvalid, fun previous hsome => hprevious previous hsome entry List.mem_cons_self, by omega⟩
        obtain ⟨result, hrest⟩ := (ih hwf').mpr ⟨hvalids, hstrict, by
          intro previous hsome
          rw [hname] at hsome
          cases hsome
          exact hafter, by omega⟩
        exact ⟨result, by rw [pushAll, hpush, ok_bind, hrest]⟩

theorem pushAll_wellFormed {prims : Primitives} {accumulator result : DirectoryMerkleAccumulator}
    {entries : List DirectoryMerkleEntry} (hwf : WellFormed accumulator)
    (h : pushAll prims accumulator entries = .ok result) :
    WellFormed result ∧ result.entryCount = accumulator.entryCount + entries.length := by
  induction entries generalizing accumulator with
  | nil =>
      cases h
      exact ⟨hwf, rfl⟩
  | cons entry entries ih =>
      rw [pushAll, bind_eq_ok] at h
      obtain ⟨next, hpush, hrest⟩ := h
      obtain ⟨hwf', hcount, _⟩ := push_wellFormed hwf hpush
      obtain ⟨hresult, htotal⟩ := ih hwf' hrest
      refine ⟨hresult, ?_⟩
      rw [htotal, hcount, List.length_cons]
      omega

theorem finish_succeeds (prims : Primitives) {accumulator : DirectoryMerkleAccumulator}
    (hwf : WellFormed accumulator) : ∃ root, accumulator.finish prims = .ok root := by
  obtain ⟨hbounded, hcontiguous⟩ := hwf
  cases hsubtrees : accumulator.subtrees with
  | nil => exact ⟨_, by rw [finish, hsubtrees, treeDigest, ok_bind]⟩
  | cons right rest =>
      rw [hsubtrees] at hcontiguous
      have hbound : accumulator.entryCount < 2 ^ 64 := by
        simp only [maximumDirectoryEntries] at hbounded
        omega
      obtain ⟨result, hresult⟩ := foldSubtrees_contiguous prims hcontiguous hbound
      exact ⟨_, by rw [finish, hsubtrees, treeDigest, hresult, ok_bind, ok_bind]⟩

end DirectoryMerkleAccumulator

open DirectoryMerkleAccumulator

theorem directoryMerkleRoot_eq_ok {prims : Primitives} {entries : List DirectoryMerkleEntry} {root : Digest} :
    directoryMerkleRoot prims entries = .ok root ↔
      entries.length ≤ maximumDirectoryEntries ∧
      ∃ accumulator, pushAll prims .new (canonicalEntries entries) = .ok accumulator ∧
        accumulator.finish prims = .ok root := by
  rw [directoryMerkleRoot, ensure_bind_eq_ok, bind_eq_ok, decide_eq_true_eq]

/-- A directory has a root exactly when its entries are valid, distinct by name, and few enough. -/
theorem directoryMerkleRoot_succeeds_iff {prims : Primitives} {entries : List DirectoryMerkleEntry} :
    (∃ root, directoryMerkleRoot prims entries = .ok root) ↔
      entries.length ≤ maximumDirectoryEntries ∧
      (∀ entry ∈ entries, validateDirectoryEntry prims entry = .ok ()) ∧ (entries.map entryName).Nodup := by
  have hperm := KeyOrder.sortByKey_perm entryName entries
  constructor
  · rintro ⟨root, hroot⟩
    obtain ⟨hlimit, accumulator, hpush, _⟩ := directoryMerkleRoot_eq_ok.mp hroot
    obtain ⟨hvalid, hstrict, _⟩ := (pushAll_succeeds_iff new_wellFormed).mp ⟨accumulator, hpush⟩
    refine ⟨hlimit, fun entry hentry => hvalid entry (hperm.mem_iff.mpr hentry), ?_⟩
    exact (hperm.map entryName).nodup_iff.mp hstrict.nodup
  · rintro ⟨hlimit, hvalid, hnodup⟩
    obtain ⟨accumulator, hpush⟩ := (pushAll_succeeds_iff new_wellFormed).mpr
      ⟨fun entry hentry => hvalid entry (hperm.mem_iff.mp hentry), KeyOrder.sortByKey_strictlyOrdered hnodup,
        by simp [DirectoryMerkleAccumulator.new], by simpa [DirectoryMerkleAccumulator.new, hperm.length_eq] using hlimit⟩
    obtain ⟨root, hroot⟩ := finish_succeeds prims (pushAll_wellFormed new_wellFormed hpush).1
    exact ⟨root, directoryMerkleRoot_eq_ok.mpr ⟨hlimit, accumulator, hpush, hroot⟩⟩

theorem directoryMerkleRoot_perm {prims : Primitives} {left right : List DirectoryMerkleEntry}
    (hnodup : (left.map entryName).Nodup) (hperm : left.Perm right) :
    directoryMerkleRoot prims left = directoryMerkleRoot prims right := by
  rw [directoryMerkleRoot, directoryMerkleRoot, hperm.length_eq, canonicalEntries, canonicalEntries,
    KeyOrder.sortByKey_eq_of_perm hnodup hperm]

end Skydriver
