import Mathlib

/-!
# Keyed tables

A database table is an association list without repeated keys.  `mapRows` is an update of every row, `modify` of one
row, and `any` a scan; each is characterized by what a lookup finds afterwards.  `lineage` follows a parent column from
one row to the next, which is what a recursive query over that column computes, and `Chain` says how many rows it
passes until one has no parent.
-/

/-- Rows of one type under their primary key. -/
abbrev Table (κ α : Type) := AList fun _ : κ => α

namespace Table

variable {κ α : Type} [DecidableEq κ]

/-- Change every row. -/
def mapRows (table : Table κ α) (change : κ → α → α) : Table κ α :=
  ⟨table.entries.map fun row => ⟨row.1, change row.1 row.2⟩, by
    have hkeys := table.nodupKeys
    rw [List.NodupKeys, List.keys] at hkeys ⊢
    rw [List.map_map]
    exact hkeys⟩

/-- Change the row under one key, if there is one. -/
def modify (table : Table κ α) (key : κ) (change : α → α) : Table κ α :=
  table.mapRows fun found row => if found = key then change row else row

/-- Some row passes the test. -/
def any (table : Table κ α) (test : κ → α → Bool) : Bool := table.entries.any fun row => test row.1 row.2

theorem mem_entries_iff {table : Table κ α} {key : κ} {row : α} :
    (⟨key, row⟩ : Sigma fun _ : κ => α) ∈ table.entries ↔ table.lookup key = some row :=
  (AList.mem_lookup_iff (s := table)).symm

/-- Tables with the same rows have the same size. -/
theorem length_eq_of_lookup {left right : Table κ α} (h : ∀ key, left.lookup key = right.lookup key) :
    left.entries.length = right.entries.length := by
  have hperm : left.entries.Perm right.entries := by
    apply List.lookup_ext left.nodupKeys right.nodupKeys
    intro key row
    have hsame := h key
    rw [AList.lookup, AList.lookup] at hsame
    rw [hsame]
  exact hperm.length_eq

theorem any_eq_true {table : Table κ α} {test : κ → α → Bool} :
    table.any test = true ↔ ∃ key row, table.lookup key = some row ∧ test key row = true := by
  rw [any, List.any_eq_true]
  constructor
  · intro hscan
    obtain ⟨⟨key, row⟩, hmem, htest⟩ := hscan
    exact ⟨key, row, mem_entries_iff.mp hmem, htest⟩
  · intro hfound
    obtain ⟨key, row, hlookup, htest⟩ := hfound
    exact ⟨⟨key, row⟩, mem_entries_iff.mpr hlookup, htest⟩

theorem any_eq_false {table : Table κ α} {test : κ → α → Bool} :
    table.any test = false ↔ ∀ key row, table.lookup key = some row → test key row = false := by
  rw [← Bool.not_eq_true, any_eq_true]
  constructor
  · intro hnone key row hlookup
    by_contra htest
    exact hnone ⟨key, row, hlookup, by simpa using htest⟩
  · intro hall hsome
    obtain ⟨key, row, hlookup, htest⟩ := hsome
    rw [hall key row hlookup] at htest
    exact Bool.false_ne_true htest

@[simp] theorem lookup_mapRows (table : Table κ α) (change : κ → α → α) (key : κ) :
    (table.mapRows change).lookup key = (table.lookup key).map (change key) := by
  apply Option.ext
  intro row
  rw [Option.map_eq_some_iff, ← mem_entries_iff, mapRows, List.mem_map]
  constructor
  · intro hrow
    obtain ⟨⟨found, old⟩, hmem, heq⟩ := hrow
    cases heq
    exact ⟨old, mem_entries_iff.mp hmem, rfl⟩
  · intro hrow
    obtain ⟨old, hlookup, heq⟩ := hrow
    exact ⟨⟨key, old⟩, mem_entries_iff.mpr hlookup, by rw [← heq]⟩

theorem mapRows_eq_self {table : Table κ α} {change : κ → α → α}
    (h : ∀ key row, table.lookup key = some row → change key row = row) : table.mapRows change = table := by
  apply AList.ext
  have hrows : table.entries.map (fun row => (⟨row.1, change row.1 row.2⟩ : Sigma fun _ : κ => α)) =
      table.entries.map id := by
    apply List.map_congr_left
    intro row hmem
    rw [h row.1 row.2 (mem_entries_iff.mp hmem), id]
  exact hrows.trans (List.map_id _)

theorem lookup_modify (table : Table κ α) (key found : κ) (change : α → α) :
    (table.modify key change).lookup found =
      if found = key then (table.lookup found).map change else table.lookup found := by
  rw [modify, lookup_mapRows]
  by_cases hkey : found = key
  · simp only [if_pos hkey]
  · simp only [if_neg hkey, Option.map_id']

theorem lookup_modify_self (table : Table κ α) (key : κ) (change : α → α) :
    (table.modify key change).lookup key = (table.lookup key).map change := by
  rw [lookup_modify, if_pos rfl]

theorem lookup_modify_ne (table : Table κ α) {key found : κ} (hne : found ≠ key) (change : α → α) :
    (table.modify key change).lookup found = table.lookup found := by
  rw [lookup_modify, if_neg hne]

theorem lookup_insert_eq (table : Table κ α) (key found : κ) (row : α) :
    (table.insert key row).lookup found = if found = key then some row else table.lookup found := by
  by_cases hkey : found = key
  · rw [if_pos hkey, hkey, AList.lookup_insert]
  · rw [if_neg hkey, AList.lookup_insert_ne hkey]

theorem lookup_erase_eq (table : Table κ α) (key found : κ) :
    (table.erase key).lookup found = if found = key then none else table.lookup found := by
  by_cases hkey : found = key
  · rw [if_pos hkey, hkey, AList.lookup_erase]
  · rw [if_neg hkey, AList.lookup_erase_ne hkey]

theorem forall_lookup_iff {table : Table κ α} {property : κ → α → Prop} :
    (∀ key row, table.lookup key = some row → property key row) ↔
      ∀ found ∈ table.entries, property found.1 found.2 := by
  constructor
  · intro hall found hmem
    exact hall found.1 found.2 (mem_entries_iff.mp hmem)
  · intro hall key row hlookup
    exact hall ⟨key, row⟩ (mem_entries_iff.mpr hlookup)

/-- The same rows with some of their columns. -/
def project {β : Type} (table : Table κ α) (column : α → β) : Table κ β :=
  ⟨table.entries.map fun row => ⟨row.1, column row.2⟩, by
    have hkeys := table.nodupKeys
    rw [List.NodupKeys, List.keys] at hkeys ⊢
    rw [List.map_map]
    exact hkeys⟩

@[simp] theorem lookup_project {β : Type} (table : Table κ α) (column : α → β) (key : κ) :
    (table.project column).lookup key = (table.lookup key).map column := by
  apply Option.ext
  intro row
  rw [Option.map_eq_some_iff, ← mem_entries_iff, project, List.mem_map]
  constructor
  · intro hrow
    obtain ⟨⟨found, old⟩, hmem, heq⟩ := hrow
    cases heq
    exact ⟨old, mem_entries_iff.mp hmem, rfl⟩
  · intro hrow
    obtain ⟨old, hlookup, heq⟩ := hrow
    exact ⟨⟨key, old⟩, mem_entries_iff.mpr hlookup, by rw [← heq]⟩

/-! ### Totals -/

/-- What the rows weigh together. -/
def total (table : Table κ α) (weight : κ → α → Nat) : Nat := (table.entries.map fun row => weight row.1 row.2).sum

theorem total_eq_sum (table : Table κ α) (weight : κ → α → Nat) :
    table.total weight = ∑ key ∈ table.keys.toFinset, ((table.lookup key).map (weight key)).getD 0 := by
  have hkeys : table.keys.Nodup := table.nodupKeys
  rw [total, List.sum_toFinset _ hkeys, AList.keys, List.keys, List.map_map]
  congr 1
  apply List.map_congr_left
  intro row hrow
  rw [Function.comp_apply, mem_entries_iff.mp hrow, Option.map_some, Option.getD_some]

/-- A table weighs no more than another that has a row at least as heavy under each of its keys. -/
theorem total_le_total {left right : Table κ α} {weight weight' : κ → α → Nat}
    (h : ∀ key row, left.lookup key = some row →
      weight key row ≤ ((right.lookup key).map (weight' key)).getD 0) :
    left.total weight ≤ right.total weight' := by
  rw [total_eq_sum, total_eq_sum]
  have hsupport : ∀ key ∈ left.keys.toFinset, ((left.lookup key).map (weight key)).getD 0 ≤
      ((right.lookup key).map (weight' key)).getD 0 := by
    intro key _
    cases hrow : left.lookup key with
    | none => simp
    | some row => exact h key row hrow
  calc ∑ key ∈ left.keys.toFinset, ((left.lookup key).map (weight key)).getD 0
      ≤ ∑ key ∈ left.keys.toFinset, ((right.lookup key).map (weight' key)).getD 0 := Finset.sum_le_sum hsupport
    _ ≤ ∑ key ∈ left.keys.toFinset ∪ right.keys.toFinset, ((right.lookup key).map (weight' key)).getD 0 :=
        Finset.sum_le_sum_of_subset Finset.subset_union_left
    _ = ∑ key ∈ right.keys.toFinset, ((right.lookup key).map (weight' key)).getD 0 := by
        symm
        apply Finset.sum_subset Finset.subset_union_right
        intro key _ hnone
        rw [List.mem_toFinset, ← AList.mem_keys, ← AList.lookup_eq_none] at hnone
        simp [hnone]

theorem total_erase {table : Table κ α} {key : κ} {row : α} (h : table.lookup key = some row)
    (weight : κ → α → Nat) : weight key row + total (table.erase key) weight = table.total weight := by
  have hmem : (⟨key, row⟩ : Sigma fun _ : κ => α) ∈ table.entries := mem_entries_iff.mpr h
  obtain ⟨found, left, right, _, hentries, herase⟩ := List.exists_of_kerase (List.mem_keys_of_mem hmem)
  have hfound : table.lookup key = some found := by
    apply mem_entries_iff.mp
    simp [hentries]
  rw [h, Option.some.injEq] at hfound
  show weight key row + ((List.kerase key table.entries).map fun row => weight row.1 row.2).sum = _
  rw [total, herase, hentries, hfound]
  simp only [List.map_append, List.map_cons, List.sum_append, List.sum_cons]
  omega

theorem total_insert (table : Table κ α) (key : κ) (row : α) (weight : κ → α → Nat) :
    total (table.insert key row) weight = weight key row + total (table.erase key) weight := rfl

theorem total_insert_of_none {table : Table κ α} {key : κ} (h : table.lookup key = none) (row : α)
    (weight : κ → α → Nat) : total (table.insert key row) weight = weight key row + table.total weight := by
  rw [total, total, AList.insert_of_notMem (AList.lookup_eq_none.mp h)]
  rfl

theorem total_insert_of_some {table : Table κ α} {key : κ} {old : α} (h : table.lookup key = some old) (new : α)
    (weight : κ → α → Nat) :
    total (table.insert key new) weight + weight key old = table.total weight + weight key new := by
  have herase := total_erase h weight
  rw [total_insert]
  omega

omit [DecidableEq κ] in
/-- A sum over the rows that pass a test. -/
theorem total_filter (table : Table κ α) (test : α → Bool) (weight : α → Nat) :
    (((table.entries.map Sigma.snd).filter test).map weight).sum =
      table.total fun _ row => if test row then weight row else 0 := by
  rw [total]
  induction table.entries with
  | nil => rfl
  | cons row rows ih =>
      rw [List.map_cons, List.filter_cons, List.map_cons, List.sum_cons, ← ih]
      split_ifs
      · simp
      · simp

/-! ### Following a parent column -/

section Lineage

variable (table : Table κ α) (parent : α → Option κ)

/-- At most `fuel` rows from `key` upwards. -/
def ascend : Nat → κ → List (κ × α)
  | 0, _ => []
  | fuel + 1, key =>
      match table.lookup key with
      | none => []
      | some row =>
          (key, row) ::
            match parent row with
            | none => []
            | some above => ascend fuel above

/-- The row under `key` and every row above it. -/
def lineage (key : κ) : List (κ × α) := table.ascend parent (table.entries.length + 1) key

/-- `above` is `key` itself or reached from it along the parent column in `steps` steps. -/
inductive Reaches : Nat → κ → κ → Prop where
  | refl {key : κ} {row : α} (hrow : table.lookup key = some row) : Reaches 0 key key
  | step {steps : Nat} {key next above : κ} {row : α} (hrow : table.lookup key = some row)
      (hparent : parent row = some next) (hreach : Reaches steps next above) : Reaches (steps + 1) key above

variable {table parent}

theorem Reaches.lookup_below {steps : Nat} {key above : κ} (h : table.Reaches parent steps key above) :
    ∃ row, table.lookup key = some row := by
  cases h with
  | refl hrow => exact ⟨_, hrow⟩
  | step hrow _ _ => exact ⟨_, hrow⟩

theorem Reaches.lookup_above {steps : Nat} {key above : κ} (h : table.Reaches parent steps key above) :
    ∃ row, table.lookup above = some row := by
  induction h with
  | refl hrow => exact ⟨_, hrow⟩
  | step _ _ _ ih => exact ih

theorem Reaches.trans {first second : Nat} {key middle above : κ} (hfirst : table.Reaches parent first key middle)
    (hsecond : table.Reaches parent second middle above) : table.Reaches parent (first + second) key above := by
  induction hfirst with
  | refl _ => simpa using hsecond
  | step hrow hparent _ ih =>
      rw [Nat.add_right_comm]
      exact .step hrow hparent (ih hsecond)

theorem mem_ascend_iff {fuel : Nat} {key above : κ} {row : α} :
    (above, row) ∈ table.ascend parent fuel key ↔
      table.lookup above = some row ∧ ∃ steps < fuel, table.Reaches parent steps key above := by
  induction fuel generalizing key with
  | zero => simp [ascend]
  | succ fuel ih =>
      rw [ascend]
      cases hlookup : table.lookup key with
      | none =>
          simp only [List.not_mem_nil, false_iff, not_and]
          intro _ hreach
          obtain ⟨_, _, hreach⟩ := hreach
          obtain ⟨_, hrow⟩ := hreach.lookup_below
          rw [hlookup] at hrow
          cases hrow
      | some found =>
          simp only [List.mem_cons, Prod.mk.injEq]
          constructor
          · intro hmem
            rcases hmem with ⟨habove, hrow⟩ | hmem
            · subst habove hrow
              exact ⟨hlookup, 0, by omega, .refl hlookup⟩
            · cases hparent : parent found with
              | none => simp [hparent] at hmem
              | some next =>
                  rw [hparent] at hmem
                  obtain ⟨hrow, steps, hlt, hreach⟩ := ih.mp hmem
                  exact ⟨hrow, steps + 1, by omega, .step hlookup hparent hreach⟩
          · intro hfound
            obtain ⟨hrow, steps, hlt, hreach⟩ := hfound
            cases hreach with
            | refl _ =>
                rw [hlookup] at hrow
                exact .inl ⟨rfl, (Option.some.inj hrow).symm⟩
            | step hkey hparent hreach =>
                rw [hlookup] at hkey
                cases hkey
                rw [hparent]
                exact .inr (ih.mpr ⟨hrow, _, by omega, hreach⟩)

/-- The node after `steps` steps is unique. -/
theorem Reaches.functional {steps : Nat} {key left right : κ} (hleft : table.Reaches parent steps key left)
    (hright : table.Reaches parent steps key right) : left = right := by
  induction hleft with
  | refl _ =>
      cases hright with
      | refl _ => rfl
  | step hrow hparent _ ih =>
      cases hright with
      | step hrow' hparent' hreach' =>
          rw [hrow] at hrow'
          cases hrow'
          rw [hparent] at hparent'
          cases hparent'
          exact ih hreach'

/-- A longer walk passes through the end of a shorter one. -/
theorem Reaches.split {first second : Nat} {key above : κ} (h : table.Reaches parent (first + second) key above) :
    ∃ middle, table.Reaches parent first key middle ∧ table.Reaches parent second middle above := by
  induction first generalizing key with
  | zero =>
      rw [Nat.zero_add] at h
      obtain ⟨row, hrow⟩ := h.lookup_below
      exact ⟨key, .refl hrow, h⟩
  | succ first ih =>
      rw [Nat.add_right_comm] at h
      cases h with
      | step hrow hparent hreach =>
          obtain ⟨middle, hlower, hupper⟩ := ih hreach
          exact ⟨middle, .step hrow hparent hlower, hupper⟩

/-- Whatever is reached at all is reached within as many steps as there are rows: a shortest walk meets no row
twice. -/
theorem Reaches.bounded {steps : Nat} {key above : κ} (h : table.Reaches parent steps key above) :
    ∃ short < table.entries.length + 1, table.Reaches parent short key above := by
  classical
  have hex : ∃ short, table.Reaches parent short key above := ⟨steps, h⟩
  refine ⟨Nat.find hex, ?_, Nat.find_spec hex⟩
  by_contra hlong
  push Not at hlong
  -- the rows met on the way, one for each number of steps
  have hvisit : ∀ index : Fin (table.entries.length + 1), ∃ node row,
      table.Reaches parent index.val key node ∧ table.lookup node = some row := by
    intro index
    have hsplit : Nat.find hex = index.val + (Nat.find hex - index.val) := by omega
    obtain ⟨node, hlower, _⟩ := Reaches.split (hsplit ▸ Nat.find_spec hex)
    obtain ⟨row, hrow⟩ := hlower.lookup_above
    exact ⟨node, row, hlower, hrow⟩
  choose node row hreach hrow using hvisit
  have hdistinct : Function.Injective node := by
    intro left right heq
    by_contra hne
    wlog hlt : left.val < right.val generalizing left right
    · exact this heq.symm (Ne.symm hne) (by omega)
    have hsplit : Nat.find hex = right.val + (Nat.find hex - right.val) := by omega
    obtain ⟨middle, hlower, hupper⟩ := Reaches.split (hsplit ▸ Nat.find_spec hex)
    have hmiddle : middle = node left := (hlower.functional (hreach right)).trans heq.symm
    have hshort := (hreach left).trans (hmiddle ▸ hupper)
    exact Nat.find_min hex (by omega) hshort
  have hmem : ∀ index, node index ∈ table.keys := by
    intro index
    rw [← AList.mem_keys, ← AList.lookup_isSome, hrow index]
    rfl
  have hcard : (Finset.univ.image node).card ≤ table.keys.toFinset.card := by
    apply Finset.card_le_card
    intro found hfound
    obtain ⟨index, _, rfl⟩ := Finset.mem_image.mp hfound
    exact List.mem_toFinset.mpr (hmem index)
  rw [Finset.card_image_of_injective _ hdistinct, Finset.card_univ, Fintype.card_fin] at hcard
  have hkeys : table.keys.toFinset.card ≤ table.entries.length := by
    refine (List.toFinset_card_le _).trans ?_
    rw [AList.keys, List.keys, List.length_map]
  omega

theorem mem_lineage_iff {key above : κ} {row : α} :
    (above, row) ∈ table.lineage parent key ↔
      table.lookup above = some row ∧ ∃ steps, table.Reaches parent steps key above := by
  rw [lineage, mem_ascend_iff]
  constructor
  · intro hfound
    obtain ⟨hrow, steps, _, hreach⟩ := hfound
    exact ⟨hrow, steps, hreach⟩
  · intro hfound
    obtain ⟨hrow, steps, hreach⟩ := hfound
    obtain ⟨short, hlt, hshort⟩ := hreach.bounded
    exact ⟨hrow, short, hlt, hshort⟩

/-- A walk only depends on the parents of the rows it meets. -/
theorem Reaches.transfer {other : Table κ α} {steps : Nat} {key above : κ} (h : table.Reaches parent steps key above)
    (hsame : ∀ met row, (∃ steps, table.Reaches parent steps key met) → table.lookup met = some row →
      ∃ row', other.lookup met = some row' ∧ parent row' = parent row) :
    other.Reaches parent steps key above := by
  induction h with
  | refl hrow =>
      obtain ⟨row', hrow', _⟩ := hsame _ _ ⟨0, .refl hrow⟩ hrow
      exact .refl hrow'
  | step hrow hparent hreach ih =>
      obtain ⟨row', hrow', hparent'⟩ := hsame _ _ ⟨0, .refl hrow⟩ hrow
      refine .step hrow' (hparent'.trans hparent) (ih ?_)
      intro met found hmet hfound
      obtain ⟨steps, hmet⟩ := hmet
      exact hsame met found ⟨steps + 1, .step hrow hparent hmet⟩ hfound

theorem reaches_project {β : Type} (table : Table κ α) (column : α → β) {above : β → Option κ} {steps : Nat} {key goal : κ} :
    (table.project column).Reaches above steps key goal ↔ table.Reaches (above ∘ column) steps key goal := by
  constructor
  · intro h
    induction h with
    | refl hrow =>
        rw [lookup_project, Option.map_eq_some_iff] at hrow
        obtain ⟨_, hrow, _⟩ := hrow
        exact .refl hrow
    | step hrow hparent _ ih =>
        rw [lookup_project, Option.map_eq_some_iff] at hrow
        obtain ⟨_, hrow, rfl⟩ := hrow
        exact .step hrow hparent ih
  · intro h
    induction h with
    | refl hrow => exact .refl (by rw [lookup_project, hrow, Option.map_some])
    | step hrow hparent _ ih => exact .step (by rw [lookup_project, hrow, Option.map_some]) hparent ih

/-- A loop that walks up, remembers where it has been and stops at a hit finds every hit: the nearest one is met before
any row is met twice. -/
theorem seek_complete (loop : List κ → κ → Bool) (hit : κ → Prop)
    (hstop : ∀ visited key, key ∉ visited → hit key → loop visited key = true)
    (hnext : ∀ visited key next row, key ∉ visited → ¬hit key → table.lookup key = some row →
      parent row = some next → loop visited key = loop (key :: visited) next)
    {steps : Nat} {key goal : κ} (hreach : table.Reaches parent steps key goal) (hgoal : hit goal) :
    loop [] key = true := by
  classical
  -- the walk to the nearest hit, none of whose rows has been visited
  have hnearest : ∀ steps visited key goal, table.Reaches parent steps key goal → hit goal →
      (∀ fewer < steps, ∀ other, table.Reaches parent fewer key other → ¬hit other) →
      (∀ fewer ≤ steps, ∀ other, table.Reaches parent fewer key other → other ∉ visited) →
      loop visited key = true := by
    intro steps
    induction steps with
    | zero =>
        intro visited key goal hreach hgoal _ hfresh
        cases hreach with
        | refl hrow => exact hstop visited key (hfresh 0 le_rfl key (.refl hrow)) hgoal
    | succ steps ih =>
        intro visited key goal hreach hgoal hfirst hfresh
        cases hreach with
        | @step _ _ next _ row hrow hparent hrest =>
            have hmiss := hfirst 0 (Nat.succ_pos steps) key (.refl hrow)
            rw [hnext visited key next row (hfresh 0 (Nat.zero_le _) key (.refl hrow)) hmiss hrow hparent]
            apply ih (key :: visited) next goal hrest hgoal
            · intro fewer hlt other hother
              exact hfirst (fewer + 1) (by omega) other (.step hrow hparent hother)
            · intro fewer hle other hother hmem
              have hup := Reaches.step hrow hparent hother
              rcases List.mem_cons.mp hmem with hback | hmem
              · -- coming back to `key` would have shortened the walk
                subst hback
                have hwhole := Reaches.step hrow hparent hrest
                rw [show steps + 1 = fewer + 1 + (steps - fewer) by omega] at hwhole
                obtain ⟨middle, hlower, hupper⟩ := hwhole.split
                rw [hlower.functional hup] at hupper
                exact hfirst (steps - fewer) (by omega) goal hupper hgoal
              · exact hfresh (fewer + 1) (by omega) other hup hmem
  have hex : ∃ steps goal, table.Reaches parent steps key goal ∧ hit goal := ⟨steps, goal, hreach, hgoal⟩
  obtain ⟨nearest, hwalk, hhit⟩ := Nat.find_spec hex
  refine hnearest (Nat.find hex) [] key nearest hwalk hhit ?_ ?_
  · intro fewer hlt other hother hhit'
    exact Nat.find_min hex hlt ⟨other, hother, hhit'⟩
  · intro _ _ _ _
    exact List.not_mem_nil

/-- How many rows a walk has not visited yet. -/
def unvisited (table : Table κ α) (visited : List κ) : Nat := (table.keys.filter fun key => !visited.contains key).length

theorem unvisited_cons_lt {visited : List κ} {key : κ} {row : α} (hrow : table.lookup key = some row)
    (hfresh : visited.contains key = false) : table.unvisited (key :: visited) < table.unvisited visited := by
  have hkey : key ∈ table.keys := by
    rw [← AList.mem_keys, ← AList.lookup_isSome, hrow]
    rfl
  have hfilter : table.keys.filter (fun found => !(key :: visited).contains found) =
      (table.keys.filter fun found => !visited.contains found).filter fun found => !(found == key) := by
    rw [List.filter_filter]
    congr 1
    funext found
    rw [List.contains_cons, Bool.not_or]
  rw [unvisited, unvisited, hfilter]
  apply List.length_filter_lt_length_iff_exists.mpr
  refine ⟨key, List.mem_filter.mpr ⟨hkey, by rw [hfresh]; rfl⟩, ?_⟩
  simp

/-! ### Chains up to a row without parent -/

variable (table parent)

/-- The walk from `key` ends at a row without parent after `rows` rows. -/
inductive Chain : κ → Nat → Prop where
  | top {key : κ} {row : α} (hrow : table.lookup key = some row) (hparent : parent row = none) : Chain key 1
  | up {key above : κ} {row : α} {rows : Nat} (hrow : table.lookup key = some row)
      (hparent : parent row = some above) (habove : Chain above rows) : Chain key (rows + 1)

variable {table parent}

theorem Chain.functional {key : κ} {left right : Nat} (hleft : table.Chain parent key left)
    (hright : table.Chain parent key right) : left = right := by
  induction hleft generalizing right with
  | top hrow hparent =>
      cases hright with
      | top _ _ => rfl
      | up hrow' hparent' _ =>
          rw [hrow] at hrow'
          cases hrow'
          rw [hparent] at hparent'
          cases hparent'
  | up hrow hparent _ ih =>
      cases hright with
      | top hrow' hparent' =>
          rw [hrow] at hrow'
          cases hrow'
          rw [hparent] at hparent'
          cases hparent'
      | up hrow' hparent' habove =>
          rw [hrow] at hrow'
          cases hrow'
          rw [hparent] at hparent'
          cases hparent'
          rw [ih habove]

theorem Chain.pos {key : κ} {rows : Nat} (h : table.Chain parent key rows) : 0 < rows := by
  cases h with
  | top _ _ => exact Nat.one_pos
  | up _ _ _ => exact Nat.succ_pos _

theorem Chain.reaches {key : κ} {rows : Nat} (h : table.Chain parent key rows) :
    ∃ top row, table.Reaches parent (rows - 1) key top ∧ table.lookup top = some row ∧ parent row = none := by
  induction h with
  | top hrow hparent => exact ⟨_, _, .refl hrow, hrow, hparent⟩
  | up hrow hparent habove ih =>
      obtain ⟨top, last, hreach, hlast, hnone⟩ := ih
      refine ⟨top, last, ?_, hlast, hnone⟩
      have hstep := Reaches.step hrow hparent hreach
      rwa [Nat.sub_add_cancel habove.pos] at hstep

/-- Above a row of the chain, the chain is shorter by the steps taken. -/
theorem Chain.of_reaches {key above : κ} {steps rows : Nat} (hreach : table.Reaches parent steps key above)
    (habove : table.Chain parent above rows) : table.Chain parent key (steps + rows) := by
  induction hreach with
  | refl _ => simpa using habove
  | step hrow hparent _ ih =>
      rw [Nat.add_right_comm]
      exact .up hrow hparent (ih habove)

/-- Every row of a chain has the rest of the chain above it. -/
theorem Chain.above {key above : κ} {steps rows : Nat} (h : table.Chain parent key rows)
    (hreach : table.Reaches parent steps key above) : ∃ rest, table.Chain parent above rest := by
  induction hreach generalizing rows with
  | refl _ => exact ⟨rows, h⟩
  | step hrow hparent _ ih =>
      cases h with
      | top hrow' hparent' =>
          rw [hrow] at hrow'
          cases hrow'
          rw [hparent] at hparent'
          cases hparent'
      | up hrow' hparent' habove =>
          rw [hrow] at hrow'
          cases hrow'
          rw [hparent] at hparent'
          cases hparent'
          exact ih habove

theorem Chain.transfer {other : Table κ α} {key : κ} {rows : Nat} (h : table.Chain parent key rows)
    (hsame : ∀ met row, (∃ steps, table.Reaches parent steps key met) → table.lookup met = some row →
      ∃ row', other.lookup met = some row' ∧ parent row' = parent row) :
    other.Chain parent key rows := by
  induction h with
  | top hrow hparent =>
      obtain ⟨row', hrow', hparent'⟩ := hsame _ _ ⟨0, .refl hrow⟩ hrow
      exact .top hrow' (hparent'.trans hparent)
  | up hrow hparent habove ih =>
      obtain ⟨row', hrow', hparent'⟩ := hsame _ _ ⟨0, .refl hrow⟩ hrow
      refine .up hrow' (hparent'.trans hparent) (ih ?_)
      intro met found hmet hfound
      obtain ⟨steps, hmet⟩ := hmet
      exact hsame met found ⟨steps + 1, .step hrow hparent hmet⟩ hfound

/-- Move one row below `target`: a chain that passed through it is regrafted, any other stays. -/
theorem Chain.graft {other : Table κ α} {moved target : κ} {row : α} {height : Nat}
    (hother : ∀ key row, key ≠ moved → table.lookup key = some row →
      ∃ row', other.lookup key = some row' ∧ parent row' = parent row)
    (hmoved : other.lookup moved = some row) (hparent : parent row = some target)
    (htarget : other.Chain parent target height) {key : κ} {rows : Nat} (h : table.Chain parent key rows) :
    (∃ steps, table.Reaches parent steps key moved ∧ other.Chain parent key (steps + height + 1)) ∨
      other.Chain parent key rows := by
  have hdone : other.Chain parent moved (0 + height + 1) := by
    rw [Nat.zero_add]
    exact .up hmoved hparent htarget
  induction h with
  | @top key found hrow hnone =>
      by_cases hkey : key = moved
      · subst hkey
        exact .inl ⟨0, .refl hrow, hdone⟩
      · obtain ⟨row', hrow', hparent'⟩ := hother key found hkey hrow
        exact .inr (.top hrow' (hparent'.trans hnone))
  | @up key above found rows hrow habove _ ih =>
      by_cases hkey : key = moved
      · subst hkey
        exact .inl ⟨0, .refl hrow, hdone⟩
      · obtain ⟨row', hrow', hparent'⟩ := hother key found hkey hrow
        rcases ih with ⟨steps, hreach, hchain⟩ | hchain
        · refine .inl ⟨steps + 1, .step hrow habove hreach, ?_⟩
          have hup := Chain.up hrow' (hparent'.trans habove) hchain
          rwa [show steps + 1 + height + 1 = steps + height + 1 + 1 by omega]
        · exact .inr (.up hrow' (hparent'.trans habove) hchain)

theorem Chain.le_length {key : κ} {rows : Nat} (h : table.Chain parent key rows) :
    rows ≤ table.entries.length + 1 := by
  obtain ⟨top, row, hreach, hrow, hnone⟩ := h.reaches
  obtain ⟨short, hlt, hshort⟩ := hreach.bounded
  have := h.functional (Chain.of_reaches hshort (.top hrow hnone))
  omega

theorem Chain.length_ascend {key : κ} {rows fuel : Nat} (h : table.Chain parent key rows) (hfuel : rows ≤ fuel) :
    (table.ascend parent fuel key).length = rows := by
  induction h generalizing fuel with
  | top hrow hparent =>
      obtain ⟨fuel, rfl⟩ := Nat.exists_eq_add_of_lt hfuel
      rw [Nat.zero_add, ascend, hrow]
      simp only [hparent, List.length_cons, List.length_nil]
  | up hrow hparent habove ih =>
      cases fuel with
      | zero => omega
      | succ fuel =>
          rw [ascend, hrow]
          simp only [hparent, List.length_cons, ih (Nat.le_of_succ_le_succ hfuel)]

theorem Chain.length_lineage {key : κ} {rows : Nat} (h : table.Chain parent key rows) :
    (table.lineage parent key).length = rows := h.length_ascend h.le_length

end Lineage

end Table
