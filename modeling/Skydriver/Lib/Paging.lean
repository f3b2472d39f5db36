import Mathlib

/-!
# Pages behind a cursor

A store hands out its entries page by page; each page names the cursor that leads to the next one.  `Followed` is what
a client collects that feeds every cursor back until there is none.

A scan meets its keys in an order of its own.  It takes the first ones behind the cursor, one more than the page holds,
and sorts what it took.  Following its cursors leads through all keys in their order exactly if on each page no key has
more keys of that page or behind it in front of it than the page holds; and it does so for all limits exactly if no key
has two larger ones in front of it.
-/

namespace Paging

/-! ### Following cursors -/

section Followed

variable {γ β ε : Type} {page : Nat → Option γ → Except ε (List β × Option γ)}

variable (page) in
/-- The entries of all pages from a cursor on, the first of them being the page of the given number. -/
inductive Followed : Nat → Option γ → List β → Prop where
  | last {number : Nat} {cursor : Option γ} {entries : List β} (h : page number cursor = .ok (entries, none)) :
      Followed number cursor entries
  | more {number : Nat} {cursor : Option γ} {entries rest : List β} {next : γ}
      (h : page number cursor = .ok (entries, some next)) (hrest : Followed (number + 1) (some next) rest) :
      Followed number cursor (entries ++ rest)

variable (page) in
/-- The cursors that the pages hand out, from the start on. -/
inductive Given : Option γ → Prop where
  | start : Given none
  | next {number : Nat} {cursor : Option γ} {entries : List β} {next : γ} (hcursor : Given cursor)
      (h : page number cursor = .ok (entries, some next)) : Given (some next)

/-- A cursor leads to one list of entries only. -/
theorem Followed.unique {number : Nat} {cursor : Option γ} {left right : List β} (hleft : Followed page number cursor left)
    (hright : Followed page number cursor right) : left = right := by
  induction hleft generalizing right with
  | last h =>
      cases hright with
      | last h' =>
          rw [h, Except.ok.injEq, Prod.mk.injEq] at h'
          exact h'.1
      | more h' _ =>
          rw [h, Except.ok.injEq, Prod.mk.injEq] at h'
          cases h'.2
  | more h _ ih =>
      cases hright with
      | last h' =>
          rw [h, Except.ok.injEq, Prod.mk.injEq] at h'
          cases h'.2
      | more h' hrest =>
          rw [h, Except.ok.injEq, Prod.mk.injEq, Option.some.injEq] at h'
          obtain ⟨rfl, rfl⟩ := h'
          rw [ih hrest]

/-- Pages that show the entries of other pages, for the cursors that they give out, lead to what those entries show. -/
theorem followed_map_iff {β' : Type} {shown : Nat → Option γ → Except ε (List β' × Option γ)} (display : β → β')
    (given : Option γ → Prop)
    (hshown : ∀ number cursor, given cursor →
      shown number cursor = (page number cursor).map fun found => (found.1.map display, found.2))
    (hgiven : ∀ number cursor found, given cursor → page number cursor = .ok found → given found.2) {number : Nat}
    {cursor : Option γ} (hcursor : given cursor) {entries : List β'} :
    Followed shown number cursor entries ↔ ∃ hidden, Followed page number cursor hidden ∧ entries = hidden.map display := by
  constructor
  · intro h
    induction h with
    | @last number cursor entries h =>
        rw [hshown number cursor hcursor] at h
        cases hpage : page number cursor with
        | error failure =>
            rw [hpage] at h
            cases h
        | ok found =>
            rw [hpage, Except.map, Except.ok.injEq, Prod.mk.injEq] at h
            obtain ⟨rfl, hlast⟩ := h
            exact ⟨found.1, .last (hpage.trans (congrArg Except.ok (Prod.ext rfl hlast))), rfl⟩
    | @more number cursor entries rest next h _ ih =>
        rw [hshown number cursor hcursor] at h
        cases hpage : page number cursor with
        | error failure =>
            rw [hpage] at h
            cases h
        | ok found =>
            rw [hpage, Except.map, Except.ok.injEq, Prod.mk.injEq] at h
            obtain ⟨rfl, hnext⟩ := h
            obtain ⟨hidden, hrest, rfl⟩ := ih (hnext ▸ hgiven number cursor found hcursor hpage)
            exact ⟨found.1 ++ hidden, .more (hpage.trans (congrArg Except.ok (Prod.ext rfl hnext))) hrest,
              List.map_append.symm⟩
  · rintro ⟨hidden, h, rfl⟩
    induction h with
    | @last number cursor entries h =>
        apply Followed.last
        rw [hshown number cursor hcursor, h]
        rfl
    | @more number cursor entries rest next h _ ih =>
        rw [List.map_append]
        refine .more ?_ (ih (hgiven number cursor _ hcursor h))
        rw [hshown number cursor hcursor, h]
        rfl

end Followed

/-! ### Positions -/

section Positions

variable {α : Type} {before : α → α → Prop} [Std.Asymm before] {keys : List α}

theorem nodup_of_pairwise (hscan : keys.Pairwise before) : keys.Nodup := by
  refine hscan.imp ?_
  intro left right hbefore heq
  rw [heq] at hbefore
  exact Std.Irrefl.irrefl right hbefore

variable [DecidableRel before]

/-- In an ordered list, as many elements are in front of an element as its index says. -/
theorem countP_before_getElem (hordered : keys.Pairwise before) {index : Nat} (hindex : index < keys.length) :
    (keys.countP fun other => decide (before other keys[index])) = index := by
  have hfront : ((keys.take index).countP fun other => decide (before other keys[index])) = (keys.take index).length := by
    rw [List.countP_eq_length]
    intro other hother
    obtain ⟨position, hposition, rfl⟩ := List.mem_take_iff_getElem.mp hother
    exact decide_eq_true (List.pairwise_iff_getElem.mp hordered _ _ _ _ (by omega))
  have hback : ((keys.drop index).countP fun other => decide (before other keys[index])) = 0 := by
    rw [List.countP_eq_zero]
    intro other hother
    obtain ⟨position, hposition, rfl⟩ := List.mem_drop_iff_getElem.mp hother
    rw [decide_eq_true_eq]
    intro hbefore
    rcases Nat.eq_zero_or_pos position with rfl | hpos
    · exact Std.Irrefl.irrefl _ hbefore
    · exact Std.Asymm.asymm _ _ hbefore (List.pairwise_iff_getElem.mp hordered _ _ _ _ (by omega))
  have hlength : (keys.take index).length = index := by rw [List.length_take, Nat.min_eq_left hindex.le]
  calc keys.countP (fun other => decide (before other keys[index]))
      = (keys.take index ++ keys.drop index).countP fun other => decide (before other keys[index]) := by
        rw [List.take_append_drop]
    _ = index := by rw [List.countP_append, hfront, hback, hlength, Nat.add_zero]

/-- An element is among the first ones exactly if few enough elements are in front of it. -/
theorem mem_take_iff_countP (hordered : keys.Pairwise before) {key : α} (hkey : key ∈ keys) (count : Nat) :
    key ∈ keys.take count ↔ (keys.countP fun other => decide (before other key)) < count := by
  obtain ⟨index, hindex, rfl⟩ := List.getElem_of_mem hkey
  have hcount := countP_before_getElem hordered hindex
  rw [hcount, List.mem_take_iff_getElem]
  constructor
  · rintro ⟨position, hposition, heq⟩
    have hother := countP_before_getElem hordered (show position < keys.length by omega)
    rw [heq, hcount] at hother
    omega
  · intro hlt
    exact ⟨index, by omega, rfl⟩

theorem mem_drop_iff_countP (hordered : keys.Pairwise before) {key : α} (hkey : key ∈ keys) (count : Nat) :
    key ∈ keys.drop count ↔ count ≤ keys.countP fun other => decide (before other key) := by
  obtain ⟨index, hindex, rfl⟩ := List.getElem_of_mem hkey
  have hcount := countP_before_getElem hordered hindex
  rw [hcount, List.mem_drop_iff_getElem]
  constructor
  · rintro ⟨position, hposition, heq⟩
    have hother := countP_before_getElem hordered (show position + count < keys.length by omega)
    simp only [Nat.add_comm position] at hother
    rw [heq, hcount] at hother
    omega
  · intro hle
    exact ⟨index - count, by omega, by simp only [Nat.add_sub_cancel' hle]⟩

end Positions

/-! ### Sorting -/

section Ranks

variable {α : Type} [LinearOrder α]

/-- The number of smaller keys. -/
def rank (keys : List α) (key : α) : Nat := keys.countP fun other => decide (other < key)

def sorted (keys : List α) : List α := keys.insertionSort (· ≤ ·)

theorem sorted_perm (keys : List α) : (sorted keys).Perm keys := List.perm_insertionSort _ _

@[simp] theorem mem_sorted {keys : List α} {key : α} : key ∈ sorted keys ↔ key ∈ keys := (sorted_perm keys).mem_iff

@[simp] theorem length_sorted (keys : List α) : (sorted keys).length = keys.length := (sorted_perm keys).length_eq

theorem sorted_pairwise {keys : List α} (hnodup : keys.Nodup) : (sorted keys).Pairwise (· < ·) := by
  have hle := List.pairwise_insertionSort (α := α) (· ≤ ·) keys
  have hne : (sorted keys).Pairwise (· ≠ ·) := (sorted_perm keys).nodup_iff.mpr hnodup
  exact hle.imp₂ (fun _ _ h hne => lt_of_le_of_ne h hne) hne

theorem sorted_eq_of_perm {keys ordered : List α} (hordered : ordered.Pairwise (· < ·)) (hperm : keys.Perm ordered) :
    sorted keys = ordered := by
  have hnodup : keys.Nodup := hperm.nodup_iff.mpr (hordered.imp ne_of_lt)
  exact ((sorted_perm keys).trans hperm).eq_of_pairwise (fun _ _ _ _ hforward hbackward => absurd hforward hbackward.asymm)
    (sorted_pairwise hnodup) hordered

theorem rank_sorted (keys : List α) (key : α) : rank (sorted keys) key = rank keys key := (sorted_perm keys).countP_eq _

theorem rank_getElem_sorted {keys : List α} (hnodup : keys.Nodup) {index : Nat} (hindex : index < (sorted keys).length) :
    rank keys (sorted keys)[index] = index := by
  rw [← rank_sorted]
  exact countP_before_getElem (sorted_pairwise hnodup) hindex

theorem mem_drop_sorted {keys : List α} (hnodup : keys.Nodup) {key : α} (hkey : key ∈ keys) (count : Nat) :
    key ∈ (sorted keys).drop count ↔ count ≤ rank keys key := by
  rw [mem_drop_iff_countP (sorted_pairwise hnodup) (mem_sorted.mpr hkey), ← rank_sorted, rank]

theorem mem_take_sorted {keys : List α} (hnodup : keys.Nodup) {key : α} (hkey : key ∈ keys) (count : Nat) :
    key ∈ (sorted keys).take count ↔ rank keys key < count := by
  rw [mem_take_iff_countP (sorted_pairwise hnodup) (mem_sorted.mpr hkey), ← rank_sorted, rank]

theorem rank_lt_rank_iff {keys : List α} (hnodup : keys.Nodup) {left right : α} (hleft : left ∈ keys)
    (hright : right ∈ keys) : rank keys left < rank keys right ↔ left < right := by
  obtain ⟨first, hfirst, rfl⟩ := List.getElem_of_mem (mem_sorted.mpr hleft)
  obtain ⟨second, hsecond, rfl⟩ := List.getElem_of_mem (mem_sorted.mpr hright)
  rw [rank_getElem_sorted hnodup hfirst, rank_getElem_sorted hnodup hsecond]
  exact (sorted_pairwise hnodup).sortedLT.getElem_lt_getElem_iff.symm

theorem rank_lt_length {keys : List α} {key : α} (hkey : key ∈ keys) : rank keys key < keys.length := by
  rw [rank, List.countP_eq_length_filter]
  apply List.length_filter_lt_length_iff_exists.mpr
  exact ⟨key, hkey, by rw [decide_eq_true_eq]; exact lt_irrefl key⟩

/-- The keys that are not among the first ones. -/
def ranked (keys : List α) (count : Nat) : List α := keys.filter fun key => decide (count ≤ rank keys key)

theorem mem_ranked {keys : List α} {count : Nat} {key : α} :
    key ∈ ranked keys count ↔ key ∈ keys ∧ count ≤ rank keys key := by
  rw [ranked, List.mem_filter, decide_eq_true_eq]

theorem nodup_ranked {keys : List α} (hnodup : keys.Nodup) (count : Nat) : (ranked keys count).Nodup := hnodup.filter _

theorem sorted_ranked {keys : List α} (hnodup : keys.Nodup) (count : Nat) :
    sorted (ranked keys count) = (sorted keys).drop count := by
  have hdrop := (sorted_pairwise hnodup).sublist (List.drop_sublist count (sorted keys))
  refine sorted_eq_of_perm hdrop ((List.perm_ext_iff_of_nodup (nodup_ranked hnodup count) (hdrop.imp ne_of_lt)).mpr fun key => ?_)
  rw [mem_ranked]
  constructor
  · rintro ⟨hkey, hrank⟩
    exact (mem_drop_sorted hnodup hkey count).mpr hrank
  · intro hmem
    have hkey := mem_sorted.mp (List.mem_of_mem_drop hmem)
    exact ⟨hkey, (mem_drop_sorted hnodup hkey count).mp hmem⟩

theorem length_ranked {keys : List α} (hnodup : keys.Nodup) (count : Nat) :
    (ranked keys count).length = keys.length - count := by
  rw [← length_sorted, sorted_ranked hnodup, List.length_drop, length_sorted]

theorem rank_ranked {keys : List α} (hnodup : keys.Nodup) {count : Nat} {key : α} (hkey : key ∈ ranked keys count) :
    rank (ranked keys count) key + count = rank keys key := by
  obtain ⟨index, hindex, rfl⟩ := List.getElem_of_mem (mem_sorted.mpr hkey)
  have hbound : count + index < (sorted keys).length := by
    rw [sorted_ranked hnodup, List.length_drop] at hindex
    omega
  have hsame : (sorted (ranked keys count))[index] = (sorted keys)[count + index] := by
    simp only [sorted_ranked hnodup, List.getElem_drop]
  rw [rank_getElem_sorted (nodup_ranked hnodup count) hindex, hsame, rank_getElem_sorted hnodup hbound, Nat.add_comm]

end Ranks

/-! ### Scanning -/

section Scan

variable {α : Type} [LinearOrder α]

/-- The keys that a page may hold. -/
def behind (cursor : Option α) (key : α) : Bool := cursor.all fun last => decide (last < key)

theorem behind_some_iff {last key : α} : behind (some last) key = true ↔ last < key := by
  rw [behind, Option.all_some, decide_eq_true_eq]

theorem behind_none (key : α) : behind none key = true := rfl

/-- A page of a scan and its cursor, if the scan found more keys than the page holds. -/
def scanPage (keys : List α) (limit : Nat) (cursor : Option α) : List α × Option α :=
  let taken := sorted ((keys.filter (behind cursor)).take (limit + 1))
  if limit < taken.length then (taken.take limit, (taken.take limit).getLast?) else (taken, none)

variable {keys : List α} {limit : Nat} {cursor : Option α}

theorem scanPage_of_le (h : (keys.filter (behind cursor)).length ≤ limit) :
    scanPage keys limit cursor = (sorted (keys.filter (behind cursor)), none) := by
  rw [scanPage, List.take_of_length_le (Nat.le_succ_of_le h), if_neg]
  rw [length_sorted]
  exact h.not_gt

theorem scanPage_of_lt (h : limit < (keys.filter (behind cursor)).length) :
    scanPage keys limit cursor =
      ((sorted ((keys.filter (behind cursor)).take (limit + 1))).take limit,
        ((sorted ((keys.filter (behind cursor)).take (limit + 1))).take limit).getLast?) := by
  rw [scanPage, if_pos]
  rw [length_sorted, List.length_take]
  omega

theorem mem_of_mem_scanPage {key : α} (h : key ∈ (scanPage keys limit cursor).1) : key ∈ keys := by
  have htaken {key : α} (h : key ∈ sorted ((keys.filter (behind cursor)).take (limit + 1))) : key ∈ keys :=
    List.mem_of_mem_filter (List.mem_of_mem_take (mem_sorted.mp h))
  rw [scanPage] at h
  split_ifs at h
  · exact htaken (List.mem_of_mem_take h)
  · exact htaken h

/-- The cursor of a page is a key of it. -/
theorem mem_of_scanPage_cursor {next : α} (h : (scanPage keys limit cursor).2 = some next) : next ∈ keys := by
  rw [scanPage] at h
  split_ifs at h
  have hmem := List.mem_of_mem_take (List.mem_of_getLast? h)
  exact List.mem_of_mem_filter (List.mem_of_mem_take (mem_sorted.mp hmem))

variable {before : α → α → Prop} [DecidableRel before] [Std.Asymm before]

/-- The first keys in scan order hold the first ones in key order exactly if none of these is too far behind. -/
theorem take_sorted_take_iff (hscan : keys.Pairwise before) (hlimit : limit < keys.length) :
    (sorted (keys.take (limit + 1))).take limit = (sorted keys).take limit ↔
      ∀ key ∈ (sorted keys).take limit, (keys.countP fun other => decide (before other key)) ≤ limit := by
  have hnodup := nodup_of_pairwise hscan
  have htaken : (keys.take (limit + 1)).Nodup := hnodup.sublist (List.take_sublist _ _)
  constructor
  · intro heq key hkey
    have hmem : key ∈ keys.take (limit + 1) := by
      rw [← heq] at hkey
      exact mem_sorted.mp (List.mem_of_mem_take hkey)
    exact Nat.lt_succ_iff.mp ((mem_take_iff_countP hscan (List.mem_of_mem_take hmem) _).mp hmem)
  · intro hfits
    have hleft := (sorted_pairwise htaken).sublist (List.take_sublist limit _)
    have hright := (sorted_pairwise hnodup).sublist (List.take_sublist limit _)
    have hsubset : (sorted keys).take limit ⊆ (sorted (keys.take (limit + 1))).take limit := by
      intro key hkey
      have hkeys := mem_sorted.mp (List.mem_of_mem_take hkey)
      have hmem := (mem_take_iff_countP hscan hkeys (limit + 1)).mpr (Nat.lt_succ_of_le (hfits key hkey))
      rw [mem_take_sorted htaken hmem]
      exact ((List.take_sublist _ keys).countP_le).trans_lt ((mem_take_sorted hnodup hkeys limit).mp hkey)
    have hperm := (List.Nodup.subperm (hright.imp ne_of_lt) hsubset).perm_of_length_le (by
      rw [List.length_take, List.length_take, length_sorted, length_sorted, List.length_take]
      omega)
    exact hperm.symm.eq_of_pairwise (fun _ _ _ _ hforward hbackward => absurd hforward hbackward.asymm) hleft hright

/-! ### Following a scan -/

variable (limits : Nat → Nat)

/-- The number of keys on the pages in front of a page that are all full. -/
def start (number : Nat) : Nat := ∑ earlier ∈ Finset.range number, limits earlier

variable (before) in
/-- No key that belongs on a page has more keys of this page or behind it in front of it than the page holds. -/
def PageFits (keys : List α) (number : Nat) : Prop :=
  ∀ key ∈ keys, start limits number ≤ rank keys key → rank keys key < start limits (number + 1) →
    (keys.countP fun other => decide (start limits number ≤ rank keys other ∧ before other key)) ≤ limits number

variable (before) in
/-- The number of larger keys that a scan meets in front of a key. -/
def largerInFront (keys : List α) (key : α) : Nat := keys.countP fun other => decide (key < other ∧ before other key)

variable {limits} {number : Nat}

theorem start_succ (number : Nat) : start limits (number + 1) = start limits number + limits number :=
  Finset.sum_range_succ _ _

theorem start_mono {earlier later : Nat} (h : earlier ≤ later) : start limits earlier ≤ start limits later :=
  Finset.sum_le_sum_of_subset (Finset.range_subset_range.mpr h)

theorem pageFits_iff (hscan : keys.Pairwise before) :
    PageFits before limits keys number ↔ ∀ key ∈ (sorted (ranked keys (start limits number))).take (limits number),
      ((ranked keys (start limits number)).countP fun other => decide (before other key)) ≤ limits number := by
  have hnodup := nodup_of_pairwise hscan
  have hcount (key : α) : (keys.countP fun other => decide (start limits number ≤ rank keys other ∧ before other key)) =
      (ranked keys (start limits number)).countP fun other => decide (before other key) := by
    rw [ranked, List.countP_filter]
    refine List.countP_congr fun other _ => ?_
    rw [decide_eq_true_eq, Bool.and_eq_true, decide_eq_true_eq, decide_eq_true_eq, and_comm]
  have hmem {key : α} : key ∈ (sorted (ranked keys (start limits number))).take (limits number) ↔
      key ∈ keys ∧ start limits number ≤ rank keys key ∧ rank keys key < start limits (number + 1) := by
    constructor
    · intro h
      have hranked := mem_sorted.mp (List.mem_of_mem_take h)
      have hrank := (mem_take_sorted (nodup_ranked hnodup _) hranked (limits number)).mp h
      have hshift := rank_ranked hnodup hranked
      rw [start_succ]
      exact ⟨(mem_ranked.mp hranked).1, (mem_ranked.mp hranked).2, by omega⟩
    · rintro ⟨hkey, hlow, hhigh⟩
      have hranked := mem_ranked.mpr ⟨hkey, hlow⟩
      have hshift := rank_ranked hnodup hranked
      rw [start_succ] at hhigh
      exact (mem_take_sorted (nodup_ranked hnodup _) hranked (limits number)).mpr (by omega)
  simp only [PageFits, hcount, hmem, and_imp]

/-- A page behind the first keys in key order is right exactly if it fits. -/
theorem scanPage_cases (hscan : keys.Pairwise before) (hpositive : 0 < limits number)
    (hcursor : keys.filter (behind cursor) = ranked keys (start limits number)) :
    (keys.length ≤ start limits (number + 1) ∧
      scanPage keys (limits number) cursor = ((sorted keys).drop (start limits number), none)) ∨
    (start limits (number + 1) < keys.length ∧ ∃ page next,
      scanPage keys (limits number) cursor = (page, some next) ∧ page.length = limits number ∧
      (page = ((sorted keys).drop (start limits number)).take (limits number) ↔ PageFits before limits keys number) ∧
      (page = ((sorted keys).drop (start limits number)).take (limits number) →
        keys.filter (behind (some next)) = ranked keys (start limits (number + 1)))) := by
  have hnodup := nodup_of_pairwise hscan
  have hlength := length_ranked hnodup (start limits number)
  have hsucc : start limits (number + 1) = start limits number + limits number := start_succ number
  rcases Nat.lt_or_ge (start limits (number + 1)) keys.length with hlt | hle
  · right
    have hlimit : limits number < (ranked keys (start limits number)).length := by omega
    have hpage : scanPage keys (limits number) cursor = _ := scanPage_of_lt (hcursor ▸ hlimit)
    have hfits : PageFits before limits keys number ↔ _ := pageFits_iff hscan
    have hiff := take_sorted_take_iff (hscan.filter fun key => decide (start limits number ≤ rank keys key)) hlimit
    rw [hcursor] at hpage
    rw [← ranked, sorted_ranked hnodup] at hiff
    rw [sorted_ranked hnodup, ← hiff] at hfits
    generalize hpages : (sorted ((ranked keys (start limits number)).take (limits number + 1))).take (limits number) = page
      at hpage hfits
    have hsize : page.length = limits number := by
      rw [← hpages, List.length_take, length_sorted, List.length_take]
      omega
    refine ⟨hlt, page, page.getLast (List.ne_nil_of_length_pos (by omega)), ?_, hsize, hfits.symm, ?_⟩
    · rw [hpage, List.getLast?_eq_some_getLast]
    · intro heq
      have hbound : start limits number + (limits number - 1) < (sorted keys).length := by
        rw [length_sorted]
        omega
      have hlast : page.getLast (List.ne_nil_of_length_pos (by omega)) =
          (sorted keys)[start limits number + (limits number - 1)] := by
        simp only [List.getLast_eq_getElem, hsize]
        simp only [heq, List.getElem_take, List.getElem_drop]
      have hrank := rank_getElem_sorted hnodup hbound
      rw [ranked]
      refine List.filter_congr fun key hkey => ?_
      rw [behind, Option.all_some, hlast, decide_eq_decide,
        ← rank_lt_rank_iff hnodup (mem_sorted.mp (List.getElem_mem hbound)) hkey, hrank]
      omega
  · left
    refine ⟨hle, ?_⟩
    rw [scanPage_of_le (by rw [hcursor]; omega), hcursor, sorted_ranked hnodup]

/-- A page that is not the last one and was right: what follows it. -/
theorem drop_start_succ (number : Nat) : (sorted keys).drop (start limits (number + 1)) =
    ((sorted keys).drop (start limits number)).drop (limits number) := by
  rw [List.drop_drop, start_succ]

omit [Std.Asymm before] in
/-- Behind all keys every page fits. -/
theorem pageFits_of_length_le (h : keys.length ≤ start limits number) : PageFits before limits keys number := by
  intro key hkey hlow
  have hrank := rank_lt_length hkey
  omega

/-- The last page fits. -/
theorem pageFits_last (hscan : keys.Pairwise before) (h : keys.length ≤ start limits (number + 1)) :
    PageFits before limits keys number := by
  rw [pageFits_iff hscan]
  intro key _
  have hlength := length_ranked (nodup_of_pairwise hscan) (start limits number)
  have hcount : ((ranked keys (start limits number)).countP fun other => decide (before other key)) ≤
      (ranked keys (start limits number)).length := List.countP_le_length
  rw [start_succ] at h
  omega

variable {ε : Type}

variable (limits) in
/-- A scan whose pages have the given limits. -/
def scanPages (ε : Type) (keys : List α) (number : Nat) (cursor : Option α) : Except ε (List α × Option α) :=
  .ok (scanPage keys (limits number) cursor)

theorem pageFits_of_followed (hscan : keys.Pairwise before) (hpositive : ∀ number, 0 < limits number) {entries : List α}
    (h : Followed (scanPages limits ε keys) number cursor entries)
    (hcursor : keys.filter (behind cursor) = ranked keys (start limits number))
    (hentries : entries = (sorted keys).drop (start limits number)) {later : Nat} (hlater : number ≤ later) :
    PageFits before limits keys later := by
  induction h with
  | @last number cursor entries h =>
      rw [scanPages, Except.ok.injEq] at h
      rcases scanPage_cases hscan (hpositive number) hcursor with ⟨hle, _⟩ | ⟨_, page, next, hpage, _⟩
      · rcases Nat.eq_or_lt_of_le hlater with rfl | hlt
        · exact pageFits_last hscan hle
        · exact pageFits_of_length_le (hle.trans (start_mono hlt))
      · rw [hpage] at h
        cases h
  | @more number cursor entries rest next h hrest ih =>
      rw [scanPages, Except.ok.injEq] at h
      rcases scanPage_cases hscan (hpositive number) hcursor with ⟨_, hpage⟩ | ⟨_, page, next, hpage, hsize, hfits, hnext⟩
      · rw [hpage] at h
        cases h
      · rw [hpage] at h
        cases h
        have htake : entries = ((sorted keys).drop (start limits number)).take (limits number) := by
          rw [← hentries, ← hsize, List.take_left]
        rcases Nat.eq_or_lt_of_le hlater with rfl | hlt
        · exact hfits.mp htake
        · refine ih (hnext htake) ?_ hlt
          rw [drop_start_succ, ← hentries, ← hsize, List.drop_left]

theorem followed_of_pageFits (hscan : keys.Pairwise before) (hpositive : ∀ number, 0 < limits number)
    (hfits : ∀ number, PageFits before limits keys number) (number : Nat) (cursor : Option α)
    (hcursor : keys.filter (behind cursor) = ranked keys (start limits number)) :
    Followed (scanPages limits ε keys) number cursor ((sorted keys).drop (start limits number)) := by
  generalize hremaining : keys.length - start limits number = remaining
  induction remaining using Nat.strong_induction_on generalizing number cursor with
  | _ remaining ih =>
      rcases scanPage_cases hscan (hpositive number) hcursor with ⟨_, hpage⟩ | ⟨hlt, page, next, hpage, _, hright, hnext⟩
      · exact .last (congrArg Except.ok hpage)
      · have htake := hright.mpr (hfits number)
        have hsucc : start limits (number + 1) = start limits number + limits number := start_succ number
        have hpos := hpositive number
        have hrest := ih (keys.length - start limits (number + 1)) (by omega) (number + 1) (some next) (hnext htake) rfl
        have hmore := Followed.more (congrArg Except.ok hpage) hrest
        rw [drop_start_succ, htake, List.take_append_drop] at hmore
        exact hmore

/-- Following a scan leads through all keys in their order exactly if every page fits. -/
theorem followed_scan_iff (hscan : keys.Pairwise before) (hpositive : ∀ number, 0 < limits number) :
    Followed (scanPages limits ε keys) 0 none (sorted keys) ↔ ∀ number, PageFits before limits keys number := by
  have hstart : start limits 0 = 0 := Finset.sum_range_zero _
  have hcursor : keys.filter (behind none) = ranked keys (start limits 0) := by
    rw [ranked, hstart]
    refine List.filter_congr fun key _ => ?_
    rw [behind_none, decide_eq_true (Nat.zero_le _)]
  have hall : (sorted keys).drop (start limits 0) = sorted keys := by rw [hstart, List.drop_zero]
  constructor
  · intro h number
    exact pageFits_of_followed hscan hpositive h hcursor hall.symm (Nat.zero_le number)
  · intro hfits
    have hfollowed := followed_of_pageFits (ε := ε) hscan hpositive hfits 0 none hcursor
    rwa [hall] at hfollowed

/-- Every page fits whatever the limits up to a bound are exactly if no key has two larger ones in front of it. -/
theorem pageFits_all_iff (hscan : keys.Pairwise before) {maximum : Nat} (hmaximum : 0 < maximum) :
    (∀ limits : Nat → Nat, (∀ number, 0 < limits number ∧ limits number ≤ maximum) →
        ∀ number, PageFits before limits keys number) ↔
      ∀ key ∈ keys, largerInFront before keys key ≤ 1 := by
  have hnodup := nodup_of_pairwise hscan
  constructor
  · intro h key hkey
    have hstart (number : Nat) : start (fun _ => 1) number = number := by
      rw [start, Finset.sum_const, Finset.card_range, smul_eq_mul, Nat.mul_one]
    have hfits := h (fun _ => 1) (fun _ => ⟨Nat.one_pos, hmaximum⟩) (rank keys key) key hkey
    rw [hstart, hstart] at hfits
    refine (List.countP_mono_left fun other hother hlarger => ?_).trans (hfits le_rfl (Nat.lt_succ_self _))
    rw [decide_eq_true_eq] at hlarger ⊢
    exact ⟨((rank_lt_rank_iff hnodup hkey hother).mpr hlarger.1).le, hlarger.2⟩
  · intro h limits hlimits number key hkey hlow hhigh
    have hshift := rank_ranked hnodup (mem_ranked.mpr ⟨hkey, hlow⟩)
    have hlarger := h key hkey
    rw [start_succ] at hhigh
    rw [List.countP_eq_countP_filter_add keys _ fun other => decide (other < key)]
    have hsmaller : ((keys.filter fun other => decide (other < key)).countP fun other =>
        decide (start limits number ≤ rank keys other ∧ before other key)) ≤ rank (ranked keys (start limits number)) key := by
      rw [rank, ranked, List.countP_filter, List.countP_filter]
      refine List.countP_mono_left fun other _ hother => ?_
      simp only [Bool.and_eq_true, decide_eq_true_eq] at hother ⊢
      exact ⟨hother.2, hother.1.1⟩
    have hothers : ((keys.filter fun other => !decide (other < key)).countP fun other =>
        decide (start limits number ≤ rank keys other ∧ before other key)) ≤ largerInFront before keys key := by
      rw [largerInFront, List.countP_filter]
      refine List.countP_mono_left fun other _ hother => ?_
      simp only [Bool.and_eq_true, Bool.not_eq_true', decide_eq_true_eq, decide_eq_false_iff_not, not_lt] at hother ⊢
      refine ⟨lt_of_le_of_ne hother.2 ?_, hother.1.2⟩
      rintro rfl
      exact Std.Irrefl.irrefl _ hother.1.2
    omega

end Scan

end Paging
