import Skydriver.Lib.Checked

/-!
# Stacks of completed blocks

Leaves arrive one at a time and are summarised by nodes, each over a block of consecutive leaves.  A stack holds at most
one node of each power-of-two size, the most recent and smallest first, so that it counts its leaves in binary: pushing
a leaf carries it past every equally sized neighbour, and the remaining nodes are finally combined from the right.

Nothing is known of a node but that merging a full block with a block that fits beside it gives the node over both.
-/

namespace CarryStack

open Checked

variable {ε α ν : Type}

/-- Combine a node with equally sized neighbours, then retain it. -/
def carry (size : ν → Nat) (merge : ν → ν → Except ε ν) : List ν → ν → Except ε (List ν)
  | [], node => .ok [node]
  | left :: rest, node =>
      if size left = size node then do
        let merged ← merge left node
        carry size merge rest merged
      else .ok (node :: left :: rest)

/-- Combine all nodes of a stack from the right. -/
def collapse (merge : ν → ν → Except ε ν) : ν → List ν → Except ε ν
  | right, [] => .ok right
  | right, left :: rest => do
      let merged ← merge left right
      collapse merge merged rest

section Merging

variable {size : ν → Nat} {merge : ν → ν → Except ε ν} (covers : List ν → ν → Prop)
  (hmerge : ∀ left rest node, covers (left :: rest) node → ∃ merged, merge left node = .ok merged ∧ covers rest merged)
  {stack : List ν} {node : ν}

include hmerge

/-- Where neighbours merge, carrying never fails, and a property of a stack and the node in front of it lasts. -/
theorem carry_covers (h : covers stack node) :
    ∃ top rest, carry size merge stack node = .ok (top :: rest) ∧ covers rest top := by
  induction stack generalizing node with
  | nil => exact ⟨node, [], rfl, h⟩
  | cons left rest ih =>
      by_cases hequal : size left = size node
      · obtain ⟨merged, hmerged, hcovers⟩ := hmerge left rest node h
        obtain ⟨top, below, hcarry, htop⟩ := ih hcovers
        exact ⟨top, below, by rw [carry, if_pos hequal, hmerged, ok_bind, hcarry], htop⟩
      · exact ⟨node, left :: rest, by rw [carry, if_neg hequal], h⟩

/-- Where neighbours merge, collapsing never fails. -/
theorem collapse_covers (h : covers stack node) : ∃ last, collapse merge node stack = .ok last ∧ covers [] last := by
  induction stack generalizing node with
  | nil => exact ⟨node, rfl, h⟩
  | cons left rest ih =>
      obtain ⟨merged, hmerged, hcovers⟩ := hmerge left rest node h
      obtain ⟨last, hcollapse, hlast⟩ := ih hcovers
      exact ⟨last, by rw [collapse, hmerged, ok_bind, hcollapse], hlast⟩

end Merging

/-- What is known of the node over a block of leaves: its size, and how it splits below `bound`. -/
structure Summary (size : ν → Nat) (merge : ν → ν → Except ε ν) (bound : Nat) (node : List α → Nat → ν) : Prop where
  size_node : ∀ block first, size (node block first) = block.length
  merge_node : ∀ (left right : List α) (level first : Nat), left.length = 2 ^ level → 0 < right.length →
    right.length ≤ 2 ^ level → first + (left.length + right.length) < bound →
    merge (node left first) (node right (first + left.length)) = .ok (node (left ++ right) first)

/-- The nodes over consecutive blocks of leaves, one for each level, the most recent and smallest first. -/
inductive Stacked (node : List α → Nat → ν) : List ν → List Nat → List α → Prop where
  | nil : Stacked node [] [] []
  | cons {stack : List ν} {levels : List Nat} {leaves block : List α} {level : Nat}
      (hrest : Stacked node stack levels leaves) (hblock : block.length = 2 ^ level)
      (hlevels : ∀ other ∈ levels, level < other) :
      Stacked node (node block leaves.length :: stack) (level :: levels) (leaves ++ block)

namespace Stacked

variable {size : ν → Nat} {merge : ν → ν → Except ε ν} {bound : Nat} {node : List α → Nat → ν} {stack : List ν}
  {levels : List Nat} {leaves : List α}

theorem length_eq (h : Stacked node stack levels leaves) : (levels.map fun level => 2 ^ level).sum = leaves.length := by
  induction h with
  | nil => rfl
  | cons _ hblock _ ih =>
      simp only [List.map_cons, List.sum_cons, ih, List.length_append, hblock]
      omega

theorem sorted (h : Stacked node stack levels leaves) : levels.SortedLT := by
  rw [List.sortedLT_iff_pairwise]
  induction h with
  | nil => exact .nil
  | cons _ _ hlevels ih => exact .cons hlevels ih

/-- The levels are the bits of the number of leaves. -/
theorem levels_eq (h : Stacked node stack levels leaves) : levels = leaves.length.bitIndices := by
  rw [← h.length_eq, Nat.bitIndices_sum_map_two_pow h.sorted]

theorem sizes (hsummary : Summary size merge bound node) (h : Stacked node stack levels leaves) :
    stack.map size = levels.map fun level => 2 ^ level := by
  induction h with
  | nil => rfl
  | cons _ hblock _ ih => simp only [List.map_cons, ih, hsummary.size_node, hblock]

/-- Each node is the one over its own range of leaves. -/
theorem node_eq (h : Stacked node stack levels leaves) {found : ν} (hmem : found ∈ stack) :
    ∃ first count, first + count ≤ leaves.length ∧ ((leaves.drop first).take count).length = count ∧
      found = node ((leaves.drop first).take count) first := by
  induction h with
  | nil => simp at hmem
  | @cons stack levels leaves block level hrest hblock hlevels ih =>
      rcases List.mem_cons.mp hmem with rfl | hold
      · refine ⟨leaves.length, block.length, by simp, ?_, ?_⟩
        · rw [List.drop_left, List.take_length]
        · rw [List.drop_left, List.take_length]
      · obtain ⟨first, count, hrange, hcount, rfl⟩ := ih hold
        have hsame : ((leaves ++ block).drop first).take count = (leaves.drop first).take count := by
          rw [List.drop_append_of_le_length (by omega), List.take_append_of_le_length]
          rw [List.length_drop]
          omega
        refine ⟨first, count, by simp; omega, ?_, ?_⟩
        · rw [hsame, hcount]
        · rw [hsame]

/-- Carrying a full block up the stack never fails, and leaves a stack with one node for each level again. -/
theorem carry (hsummary : Summary size merge bound node) (h : Stacked node stack levels leaves) {block : List α}
    {level : Nat} (hblock : block.length = 2 ^ level) (hlevels : ∀ other ∈ levels, level ≤ other)
    (hbound : leaves.length + block.length < bound) :
    ∃ stack' levels', CarryStack.carry size merge stack (node block leaves.length) = .ok stack' ∧
      Stacked node stack' levels' (leaves ++ block) := by
  induction h generalizing block level with
  | nil => exact ⟨_, _, rfl, .cons .nil hblock (by simp)⟩
  | @cons stack levels leaves top height hrest htop hheights ih =>
      rw [CarryStack.carry, hsummary.size_node, hsummary.size_node]
      rw [List.length_append] at hbound
      have hpos := Nat.two_pow_pos level
      by_cases hequal : top.length = block.length
      · have hheight : height = level := by
          apply Nat.pow_right_injective (Nat.le_refl 2)
          show 2 ^ height = 2 ^ level
          omega
        have hmerge := hsummary.merge_node top block height leaves.length htop (by omega) (by omega) (by omega)
        have hmerged : (top ++ block).length = 2 ^ (level + 1) := by
          rw [List.length_append, Nat.pow_succ]
          omega
        have habove : ∀ other ∈ levels, level + 1 ≤ other := fun other hother => by
          have := hheights other hother
          omega
        obtain ⟨stack', levels', hpush, hstacked⟩ := ih hmerged habove (by rw [List.length_append]; omega)
        refine ⟨stack', levels', ?_, by rw [List.append_assoc]; exact hstacked⟩
        rw [if_pos hequal, List.length_append, hmerge, ok_bind, hpush]
      · refine ⟨_, _, if_neg hequal, .cons (.cons hrest htop hheights) hblock ?_⟩
        have hlow := hlevels height List.mem_cons_self
        have hne : level ≠ height := by
          intro heq
          rw [heq] at hblock
          omega
        intro other hother
        rcases List.mem_cons.mp hother with rfl | hrest
        · omega
        · have := hheights other hrest
          omega

/-- Collapsing the stack onto a smaller block never fails, and gives the node over all leaves. -/
theorem collapse (hsummary : Summary size merge bound node) (h : Stacked node stack levels leaves) {block : List α}
    (hblock : 0 < block.length) (hlevels : ∀ level ∈ levels, block.length < 2 ^ level)
    (hbound : leaves.length + block.length < bound) :
    CarryStack.collapse merge (node block leaves.length) stack = .ok (node (leaves ++ block) 0) := by
  induction h generalizing block with
  | nil => rfl
  | @cons stack levels leaves top height hrest htop hheights ih =>
      rw [CarryStack.collapse]
      rw [List.length_append] at hbound
      have hfits := hlevels height List.mem_cons_self
      have hmerge := hsummary.merge_node top block height leaves.length htop hblock (by omega) (by omega)
      have hsmall : ∀ level ∈ levels, (top ++ block).length < 2 ^ level := by
        intro level hlevel
        have hpow : 2 ^ (height + 1) ≤ 2 ^ level := Nat.pow_le_pow_right (by decide) (hheights level hlevel)
        rw [Nat.pow_succ] at hpow
        rw [List.length_append]
        omega
      rw [List.length_append, hmerge, ok_bind, ih (by rw [List.length_append]; omega) hsmall
        (by rw [List.length_append]; omega), List.append_assoc]

/-- A stack with a top collapses to the node over all its leaves. -/
theorem collapse_top (hsummary : Summary size merge bound node) {top : ν}
    (h : Stacked node (top :: stack) levels leaves) (hbound : leaves.length < bound) :
    CarryStack.collapse merge top stack = .ok (node leaves 0) ∧ leaves ≠ [] := by
  generalize hwhole : top :: stack = whole at h
  cases h with
  | nil => cases hwhole
  | @cons stack levels leaves block level hrest hblock hlevels =>
      obtain ⟨rfl, rfl⟩ := List.cons.inj hwhole
      rw [List.length_append] at hbound
      have hpos := Nat.two_pow_pos level
      have hsmall : ∀ other ∈ levels, block.length < 2 ^ other := by
        intro other hother
        rw [hblock]
        exact Nat.pow_lt_pow_right (by decide) (hlevels other hother)
      refine ⟨hrest.collapse hsummary (by omega) hsmall hbound, ?_⟩
      intro hnil
      have := List.append_eq_nil_iff.mp hnil
      simp [this.2] at hblock
      omega

end Stacked

end CarryStack
