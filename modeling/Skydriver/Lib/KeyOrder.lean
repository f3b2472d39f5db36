import Mathlib

/-!
# Lists ordered by a byte-string key

Canonical encodings order records by the bytes of a key.  A list that is strictly ordered by its key is determined by
its elements, and sorting brings any list with distinct keys into that form.
-/

namespace KeyOrder

variable {α : Type} (key : α → List UInt8)

/-- The keys increase strictly along the list. -/
def StrictlyOrdered (values : List α) : Prop := values.Pairwise fun left right => key left < key right

/-- Stable sort by the bytes of the key. -/
def sortByKey (values : List α) : List α := values.insertionSort fun left right => key left ≤ key right

/-- Every two neighbours are strictly ordered. -/
def windowsAscend : List α → Bool
  | [] => true
  | [_] => true
  | first :: second :: rest => key first < key second && windowsAscend (second :: rest)

variable {key}

theorem windowsAscend_iff {values : List α} : windowsAscend key values = true ↔ StrictlyOrdered key values := by
  have hchain : windowsAscend key values = true ↔ values.IsChain fun left right => key left < key right := by
    fun_induction windowsAscend key values with
    | case1 => simp
    | case2 value => simp
    | case3 first second rest ih => simp [ih]
  have : IsTrans α fun left right => key left < key right := ⟨fun _ _ _ hfirst hsecond => List.lt_trans hfirst hsecond⟩
  rw [hchain, StrictlyOrdered, List.isChain_iff_pairwise]

theorem StrictlyOrdered.nodup {values : List α} (h : StrictlyOrdered key values) : (values.map key).Nodup := by
  rw [List.Nodup, List.pairwise_map]
  refine h.imp fun {left right} hlt heq => ?_
  rw [heq] at hlt
  exact List.lt_irrefl _ hlt

/-- The keys of a strictly ordered list identify its elements. -/
theorem StrictlyOrdered.eq_of_key {values : List α} (h : StrictlyOrdered key values) {left right : α}
    (hleft : left ∈ values) (hright : right ∈ values) (hkey : key left = key right) : left = right :=
  List.inj_on_of_nodup_map h.nodup hleft hright hkey

theorem StrictlyOrdered.eq_of_perm {left right : List α} (hleft : StrictlyOrdered key left)
    (hright : StrictlyOrdered key right) (hperm : left.Perm right) : left = right :=
  List.Perm.eq_of_pairwise
    (fun _ _ _ _ hforward hbackward => absurd (List.lt_trans hforward hbackward) (List.lt_irrefl _)) hleft hright hperm

theorem sortByKey_perm (key : α → List UInt8) (values : List α) : (sortByKey key values).Perm values :=
  List.perm_insertionSort _ _

theorem sortByKey_pairwise (key : α → List UInt8) (values : List α) :
    (sortByKey key values).Pairwise fun left right => key left ≤ key right := by
  have : Std.Total fun left right : α => key left ≤ key right := ⟨fun _ _ => Std.Total.total _ _⟩
  have : IsTrans α fun left right => key left ≤ key right := ⟨fun _ _ _ hfirst hsecond => List.le_trans hfirst hsecond⟩
  exact List.pairwise_insertionSort _ _

theorem sortByKey_strictlyOrdered {values : List α} (hnodup : (values.map key).Nodup) :
    StrictlyOrdered key (sortByKey key values) := by
  have hsorted := sortByKey_pairwise key values
  have hdistinct : (sortByKey key values).Pairwise fun left right => key left ≠ key right :=
    List.pairwise_map.mp (((sortByKey_perm key values).map key).nodup_iff.mpr hnodup)
  refine hsorted.imp₂ (fun left right hle hne => ?_) hdistinct
  by_contra hnot
  exact hne (List.le_antisymm hle (List.not_lt.mp hnot))

theorem sortByKey_eq_of_perm {left right : List α} (hnodup : (left.map key).Nodup) (hperm : left.Perm right) :
    sortByKey key left = sortByKey key right := by
  refine (sortByKey_strictlyOrdered hnodup).eq_of_perm
    (sortByKey_strictlyOrdered ((hperm.map key).nodup_iff.mp hnodup)) ?_
  exact (sortByKey_perm key left).trans (hperm.trans (sortByKey_perm key right).symm)

/-- A strictly ordered list is the sorted form of each of its permutations. -/
theorem sortByKey_of_perm {values sorted : List α} (hsorted : StrictlyOrdered key sorted)
    (hperm : values.Perm sorted) : sortByKey key values = sorted := by
  refine (sortByKey_strictlyOrdered ?_).eq_of_perm hsorted ((sortByKey_perm key values).trans hperm)
  exact (hperm.map key).nodup_iff.mpr hsorted.nodup

end KeyOrder
