import Skydriver.Integrity.Binding
import Skydriver.Integrity.FileBinding

/-!
# The canonical tree of a directory

The accumulator fed in order, page by page or all at once, ends with the canonical tree over the hashes of the entries
in byte order of their names.  Together with the conditions for success, the independence of the order of listing and
binding, this is what a directory root is.
-/

namespace Skydriver

open Checked

/-- The hash of one entry in the canonical tree. -/
def entryDigest (prims : Primitives) (entry : DirectoryMerkleEntry) : Digest := prims.sha256 (entryPreimage entry)

/-- The root over entries that are already in order: the canonical left-heavy tree over their hashes, under the domain
of the directory root. -/
def canonicalDirectoryRoot (prims : Primitives) (entries : List DirectoryMerkleEntry) : Digest :=
  prims.sha256 (DirectoryMerkleAccumulator.rootPreimage entries.length
    (if entries.isEmpty then prims.sha256 directoryEmptyDomain
      else FileMerkle.canonicalTreeWithDomain prims directoryNodeDomain (entries.map (entryDigest prims)) 0))

namespace DirectoryMerkleAccumulator

open FileMerkle

def pushPages (prims : Primitives) :
    DirectoryMerkleAccumulator → List (List DirectoryMerkleEntry) → Except Error DirectoryMerkleAccumulator
  | accumulator, [] => .ok accumulator
  | accumulator, page :: pages => do
      let accumulator ← pushAll prims accumulator page
      pushPages prims accumulator pages

theorem pushAll_append (prims : Primitives) (accumulator : DirectoryMerkleAccumulator)
    (front back : List DirectoryMerkleEntry) :
    pushAll prims accumulator (front ++ back) =
      (pushAll prims accumulator front >>= fun middle => pushAll prims middle back) := by
  induction front generalizing accumulator with
  | nil => rfl
  | cons entry front ih =>
      simp only [List.cons_append, pushAll]
      cases push prims accumulator entry with
      | error error => rfl
      | ok next => simp only [ok_bind, ih]

theorem pushPages_eq (prims : Primitives) (accumulator : DirectoryMerkleAccumulator)
    (pages : List (List DirectoryMerkleEntry)) :
    pushPages prims accumulator pages = pushAll prims accumulator pages.flatten := by
  induction pages generalizing accumulator with
  | nil => rfl
  | cons page pages ih => simp only [pushPages, List.flatten_cons, pushAll_append, ih]

/-- What holds after some entries: the stack summarises their hashes. -/
structure Covers (prims : Primitives) (accumulator : DirectoryMerkleAccumulator)
    (entries : List DirectoryMerkleEntry) : Prop where
  entryCount : accumulator.entryCount = entries.length
  bounded : entries.length ≤ maximumDirectoryEntries
  stacked : ∃ levels, CarryStack.Stacked (subtreeOf prims directoryNodeDomain) accumulator.subtrees levels
    (entries.map (entryDigest prims))

theorem new_covers (prims : Primitives) : Covers prims new [] := ⟨rfl, Nat.zero_le _, [], .nil⟩

theorem Covers.push {prims : Primitives} {accumulator next : DirectoryMerkleAccumulator}
    {entries : List DirectoryMerkleEntry} {entry : DirectoryMerkleEntry} (h : Covers prims accumulator entries)
    (hpush : push prims accumulator entry = .ok next) : Covers prims next (entries ++ [entry]) := by
  obtain ⟨_, _, hlimit, subtrees, hsubtrees, rfl⟩ := push_eq_ok.mp hpush
  obtain ⟨levels, hstacked⟩ := h.stacked
  rw [h.entryCount] at hlimit hsubtrees
  have hleaf : (⟨entries.length, 1, prims.sha256 (entryPreimage entry)⟩ : FileSubtree) =
      subtreeOf prims directoryNodeDomain [entryDigest prims entry] (entries.map (entryDigest prims)).length := by
    rw [List.length_map, subtreeOf, List.length_singleton, canonicalTreeWithDomain]
    rfl
  have hshort : (entries.map (entryDigest prims)).length + [entryDigest prims entry].length < 2 ^ 64 := by
    simp only [maximumDirectoryEntries] at hlimit
    simp only [List.length_map, List.length_singleton]
    omega
  obtain ⟨subtrees', levels', hcarry, hnext⟩ := hstacked.carry (subtreeOf_summary prims directoryNodeDomain)
    (show [entryDigest prims entry].length = 2 ^ 0 from rfl) (fun _ _ => Nat.zero_le _) hshort
  rw [pushSubtree_eq_carry, hleaf, hcarry, Except.ok.injEq] at hsubtrees
  refine ⟨by simp [h.entryCount], by simpa using hlimit, levels', ?_⟩
  rw [List.map_append, List.map_singleton, ← hsubtrees]
  exact hnext

/-- The run lemma: a stack summarises all entries pushed. -/
theorem Covers.pushAll {prims : Primitives} {accumulator final : DirectoryMerkleAccumulator}
    {seen entries : List DirectoryMerkleEntry} (h : Covers prims accumulator seen)
    (hpush : pushAll prims accumulator entries = .ok final) : Covers prims final (seen ++ entries) := by
  induction entries generalizing accumulator seen with
  | nil =>
      simp only [DirectoryMerkleAccumulator.pushAll, Except.ok.injEq] at hpush
      rw [List.append_nil, ← hpush]
      exact h
  | cons entry entries ih =>
      rw [DirectoryMerkleAccumulator.pushAll, bind_eq_ok] at hpush
      obtain ⟨next, hnext, hrest⟩ := hpush
      have hall := ih (h.push hnext) hrest
      rwa [List.append_assoc, List.singleton_append] at hall

theorem Covers.finish {prims : Primitives} {accumulator : DirectoryMerkleAccumulator}
    {entries : List DirectoryMerkleEntry} (h : Covers prims accumulator entries) :
    accumulator.finish prims = .ok (canonicalDirectoryRoot prims entries) := by
  obtain ⟨levels, hstacked⟩ := h.stacked
  have hlength : (entries.map (entryDigest prims)).length < 2 ^ 64 := by
    have hbounded := h.bounded
    simp only [maximumDirectoryEntries] at hbounded
    rw [List.length_map]
    omega
  rw [DirectoryMerkleAccumulator.finish, h.entryCount, canonicalDirectoryRoot]
  cases hsubtrees : accumulator.subtrees with
  | nil =>
      rw [hsubtrees] at hstacked
      have hempty : entries = [] := by
        generalize hleaves : entries.map (entryDigest prims) = leaves at hstacked
        cases hstacked
        exact List.map_eq_nil_iff.mp hleaves
      rw [hempty]
      rfl
  | cons right rest =>
      rw [hsubtrees] at hstacked
      obtain ⟨hfold, hnonempty⟩ := hstacked.collapse_top (subtreeOf_summary prims directoryNodeDomain) hlength
      have hfilled : entries.isEmpty = false := by simpa using hnonempty
      simp only [treeDigest, foldSubtrees_eq_collapse, hfold, ok_bind, hfilled]
      rfl

theorem pushAll_strictlyOrdered {prims : Primitives} {entries : List DirectoryMerkleEntry}
    {final : DirectoryMerkleAccumulator} (h : pushAll prims .new entries = .ok final) :
    KeyOrder.StrictlyOrdered entryName entries :=
  ((pushAll_succeeds_iff new_wellFormed).mp ⟨final, h⟩).2.1

end DirectoryMerkleAccumulator

open DirectoryMerkleAccumulator

theorem directoryMerkleRoot_canonical {prims : Primitives} {entries : List DirectoryMerkleEntry} {root : Digest}
    (h : directoryMerkleRoot prims entries = .ok root) :
    root = canonicalDirectoryRoot prims (canonicalEntries entries) := by
  obtain ⟨_, accumulator, hpush, hfinish⟩ := directoryMerkleRoot_eq_ok.mp h
  rw [((new_covers prims).pushAll hpush).finish, Except.ok.injEq] at hfinish
  exact hfinish.symm

/-- However the ordered entries are cut into pages, the accumulator gives the same root. -/
theorem directoryMerkleRoot_pages {prims : Primitives} {entries : List DirectoryMerkleEntry} {root : Digest}
    (h : directoryMerkleRoot prims entries = .ok root) {pages : List (List DirectoryMerkleEntry)}
    (hpages : pages.flatten = canonicalEntries entries) :
    (pushPages prims .new pages >>= fun accumulator => accumulator.finish prims) = .ok root := by
  obtain ⟨_, accumulator, hpush, hfinish⟩ := directoryMerkleRoot_eq_ok.mp h
  rw [pushPages_eq, hpages, hpush, ok_bind, hfinish]

/-- Directories with one root have the same entries, or two byte strings hashed for them collide. -/
theorem directoryMerkleRoot_binds {prims : Primitives} {left right : List DirectoryMerkleEntry} {root : Digest}
    (h : directoryMerkleRoot prims left = .ok root) (h' : directoryMerkleRoot prims right = .ok root) :
    left.Perm right ∨ Collides prims (directoryRootPreimages prims left ++ directoryRootPreimages prims right)
      (directoryRootPreimages prims left ++ directoryRootPreimages prims right) := by
  rcases separated_or_collides prims (directoryRootPreimages prims left ++ directoryRootPreimages prims right)
    (directoryRootPreimages prims left ++ directoryRootPreimages prims right) with hseparated | hcollides
  · have hfree : CollisionFree prims (directoryRootPreimages prims left ++ directoryRootPreimages prims right) :=
      hseparated
    exact .inl (directoryMerkleRoot_binding hfree.injOn h h' (fun _ hmem => List.mem_append_left _ hmem)
      (fun _ hmem => List.mem_append_right _ hmem))
  · exact .inr hcollides

/-- What a directory root is: when there is one, what it is computed from, how it may be computed in pages, and what it
commits to. -/
theorem directoryMerkleRoot_exact (prims : Primitives) (entries : List DirectoryMerkleEntry) :
    ((∃ root, directoryMerkleRoot prims entries = .ok root) ↔
      entries.length ≤ maximumDirectoryEntries ∧
      (∀ entry ∈ entries, validateDirectoryEntry prims entry = .ok ()) ∧ (entries.map entryName).Nodup) ∧
    (∀ root, directoryMerkleRoot prims entries = .ok root →
      (∀ other, entries.Perm other → directoryMerkleRoot prims other = .ok root) ∧
      root = canonicalDirectoryRoot prims (canonicalEntries entries) ∧
      (∀ pages : List (List DirectoryMerkleEntry), pages.flatten = canonicalEntries entries →
        (pushPages prims .new pages >>= fun accumulator => accumulator.finish prims) = .ok root) ∧
      ∀ other, directoryMerkleRoot prims other = .ok root → entries.Perm other ∨
        Collides prims (directoryRootPreimages prims entries ++ directoryRootPreimages prims other)
          (directoryRootPreimages prims entries ++ directoryRootPreimages prims other)) ∧
    ∀ pages : List (List DirectoryMerkleEntry), ¬ KeyOrder.StrictlyOrdered entryName pages.flatten →
      ∃ error, pushPages prims .new pages = .error error := by
  refine ⟨directoryMerkleRoot_succeeds_iff, fun root h => ⟨fun other hperm => ?_, directoryMerkleRoot_canonical h,
    fun pages hpages => directoryMerkleRoot_pages h hpages, fun other h' => directoryMerkleRoot_binds h h'⟩,
    fun pages hunordered => ?_⟩
  · have hnodup := (directoryMerkleRoot_succeeds_iff.mp ⟨root, h⟩).2.2
    rw [← directoryMerkleRoot_perm hnodup hperm, h]
  · cases hpush : pushPages prims .new pages with
    | error error => exact ⟨error, rfl⟩
    | ok final =>
        rw [pushPages_eq] at hpush
        exact absurd (pushAll_strictlyOrdered hpush) hunordered

end Skydriver
