import Skydriver.Control.Obstacles

/-!
# Maintenance passes, one after the other

A pass turns to one delete task, the first of those that are due.  A task with nothing left in its way may have others
in front of it, but only so many: each pass finishes one of them or puts it off to a later time, and what it opens or
marks on the way comes behind.  So if nothing but passes happens, the object of the task is deleted in the end.
-/

namespace Skydriver

def Database.atTime (db : Database) (time : Nat) : Database :=
  { db with surroundings := { db.surroundings with now := time } }

/-- The provider deletes the object of a location whenever it is asked to. -/
def DeletesObject (reply : Effect → Answer) (id : Identity) : Prop :=
  ∀ kind driverId storageKey provider sizeBytes,
    reply (.deleteObject (.location id) kind driverId storageKey provider sizeBytes) = .done

/-- A number of maintenance passes that run alone, with nothing in between but time.  The provider deletes the object of
`id`, and answers to everything else as it likes. -/
inductive PassedAlone (id : Identity) : Nat → Database → Database → Prop where
  | none (db : Database) : PassedAlone id 0 db db
  | pass {passes time : Nat} {db middle : Database} {reply : Effect → Answer} (h : PassedAlone id passes db middle)
      (htime : middle.now ≤ time) (hreply : DeletesObject reply id) :
      PassedAlone id (passes + 1) db (maintain.runAlone execute reply (middle.atTime time)).2

/-- The object is gone, and its task is done. -/
structure Database.Deleted (db : Database) (id : Identity) : Prop where
  task : (db.deleteTask id).map LocationDeleteTaskRow.state = some .deleted
  location : (db.objects.locations.lookup id).map LocationRow.state = some .deleted

/-- The time by which passes order the tasks that are due. -/
def LocationDeleteTaskRow.turn (row : LocationDeleteTaskRow) : Nat := row.retryAt.getD row.deleteAfter

/-- A task that is due, with nothing left in the way of deleting its object. -/
structure Waits (id : Identity) (row : LocationDeleteTaskRow) (db : Database) : Prop where
  task : db.deleteTask id = some row
  due : locationTaskDue row db.now = true
  deleteAfter : row.deleteAfter ≤ db.now
  turn : row.turn ≤ db.now
  leases : activeLease db id db.now = false
  free : db.unobstructed id = true

/-- A location whose task may come to its turn by `time`: it has one that is open, or it is to get one. -/
inductive Database.Ahead (db : Database) (time : Nat) (id : Identity) : Prop where
  | opened {row : LocationDeleteTaskRow} (hrow : db.deleteTask id = some row) (hdeleted : row.state ≠ .deleted)
      (hblocked : row.state ≠ .blocked) (hturn : row.turn ≤ time)
  | tombstoned {location : LocationRow} {deleteAfter : Nat} (hnone : db.deleteTask id = none)
      (hlocation : db.objects.locations.lookup id = some location) (hstate : location.state = .tombstoned)
      (hafter : location.deleteAfter = some deleteAfter) (hturn : deleteAfter ≤ time)

theorem Database.finite_ahead (db : Database) (time : Nat) : {id | db.Ahead time id}.Finite := by
  refine (db.lifecycle.locationTasks.keys ++ db.objects.locations.keys).finite_toSet.subset ?_
  intro id hahead
  rw [Set.mem_ofPred_eq, List.mem_append, ← AList.mem_keys, ← AList.mem_keys, ← AList.lookup_isSome, ← AList.lookup_isSome]
  cases hahead with
  | opened hrow _ _ _ => exact .inl (Option.isSome_of_mem hrow)
  | tombstoned _ hlocation _ _ _ => exact .inr (Option.isSome_of_mem hlocation)

/-! ### What the statements of a pass leave alone -/

section Nearer

variable {id : Identity} {row : LocationDeleteTaskRow} {before after : Database}

/-- The task goes on waiting, and no other comes in front of it. -/
structure Nearer (id : Identity) (row : LocationDeleteTaskRow) (before after : Database) : Prop where
  now : after.now = before.now
  waits : Waits id row before → Waits id row after
  ahead : Waits id row before → ∀ other, after.Ahead row.turn other → before.Ahead row.turn other

theorem Nearer.refl (id : Identity) (row : LocationDeleteTaskRow) (db : Database) : Nearer id row db db :=
  ⟨rfl, fun h => h, fun _ _ h => h⟩

theorem Nearer.trans {first second third : Database} (h : Nearer id row first second) (h' : Nearer id row second third) :
    Nearer id row first third where
  now := h'.now.trans h.now
  waits hwaits := h'.waits (h.waits hwaits)
  ahead hwaits other hahead := h.ahead hwaits other (h'.ahead (h.waits hwaits) other hahead)

def KeepsLeases (before after : Database) : Prop :=
  ∀ leaseId lease, after.lifecycle.readLeases.lookup leaseId = some lease →
    before.lifecycle.readLeases.lookup leaseId = some lease

theorem KeepsLeases.activeLease {clock : Nat} (h : KeepsLeases before after) (hleases : activeLease before id clock = false) :
    Skydriver.activeLease after id clock = false := by
  rw [Skydriver.activeLease, Table.any_eq_false] at hleases ⊢
  exact fun leaseId lease hlease => hleases leaseId lease (h leaseId lease hlease)

/-- A task waits on as long as its row, its location and its driver are the same and no lease appears. -/
theorem Waits.of_eq (h : Waits id row before) (htask : after.deleteTask id = before.deleteTask id)
    (hlocation : after.objects.locations.lookup id = before.objects.locations.lookup id)
    (hleases : KeepsLeases before after) (hsurroundings : after.surroundings = before.surroundings) : Waits id row after := by
  have hnow : after.now = before.now := by rw [Database.now, Database.now, hsurroundings]
  have hfree : after.unobstructed id = before.unobstructed id := by
    rw [Database.unobstructed, Database.unobstructed, htask, hlocation, hsurroundings]
  exact ⟨htask.trans h.task, hnow ▸ h.due, hnow ▸ h.deleteAfter, hnow ▸ h.turn, hnow ▸ hleases.activeLease h.leases,
    hfree.trans h.free⟩

theorem Nearer.of_eq (htasks : after.lifecycle.locationTasks = before.lifecycle.locationTasks)
    (hlocations : after.objects.locations = before.objects.locations) (hleases : KeepsLeases before after)
    (hsurroundings : after.surroundings = before.surroundings) : Nearer id row before after := by
  have htask : ∀ other, after.deleteTask other = before.deleteTask other := fun other => by
    rw [Database.deleteTask, Database.deleteTask, htasks]
  refine ⟨by rw [Database.now, Database.now, hsurroundings],
    fun hwaits => hwaits.of_eq (htask id) (by rw [hlocations]) hleases hsurroundings, ?_⟩
  intro _ other hahead
  cases hahead with
  | opened hrow hdeleted hblocked hturn => exact .opened (htask other ▸ hrow) hdeleted hblocked hturn
  | tombstoned hnone hlocation hstate hafter hturn =>
      exact .tombstoned (htask other ▸ hnone) (hlocations ▸ hlocation) hstate hafter hturn

/-- Statements on puts and uploads, and the opening batch of a pass. -/
def Mutation.onUploads : Mutation → Prop
  | .maintenance _ | .uploadPrune _ | .putClaim _ _ | .putFinish _ _ _ _ | .uploadClaim _ _ | .uploadFinish _ _ _ _ => True
  | _ => False

theorem nearer_of_onUploads {mutation : Mutation} {answer : Bool} (hkind : mutation.onUploads)
    (h : execute mutation before = some (after, answer)) : Nearer id row before after := by
  have hsame : ∀ {mutation : Mutation} {lifecycle : Lifecycle}, TaskChange before mutation lifecycle →
      mutation.onUploads → Nearer id row before { before with lifecycle } := by
    intro mutation lifecycle hchange hkind
    cases hchange with
    | unchanged => exact .of_eq rfl rfl (fun _ _ hlease => hlease) rfl
    | locationTasks hlocation =>
        cases mutation <;> first | exact False.elim hkind | cases hlocation
    | putTask => exact .of_eq rfl rfl (fun _ _ hlease => hlease) rfl
    | uploadTasks => exact .of_eq rfl rfl (fun _ _ hlease => hlease) rfl
    | leaseGrant => cases hkind
    | leaseComplete => cases hkind
  by_cases htask : mutation.onTasks = true
  · obtain ⟨lifecycle, hchange, rfl⟩ := execute_task_change h htask
    exact hsame hchange hkind
  · cases mutation with
    | maintenance now =>
        simp only [execute, Option.map_eq_some_iff, Prod.mk.injEq] at h
        obtain ⟨maintained, hmaintained, rfl, _⟩ := h
        have hleases : KeepsLeases before maintained := by
          intro leaseId lease hlease
          rcases executeMaintenance_readLeases hmaintained leaseId with hsame | ⟨hnone, _⟩
          · rw [← hsame, hlease]
          · rw [hnone] at hlease
            cases hlease
        rw [executeMaintenance, Option.some.injEq] at hmaintained
        refine .of_eq ?_ ?_ hleases ?_ <;> rw [← hmaintained]
    | _ => first | exact False.elim hkind | exact absurd rfl htask

theorem nearer_of_markUnreachable {answer : Bool}
    (h : execute (.markUnreachable before.now) before = some (after, answer)) : Nearer id row before after := by
  simp only [execute, Option.map_eq_some_iff, Prod.mk.injEq] at h
  obtain ⟨_, hmarked, rfl, _⟩ := h
  obtain ⟨marked, holds, rfl, _⟩ := executeMarkUnreachable_eq_some hmarked
  refine ⟨rfl, fun hwaits => ?_, fun hwaits other hahead => ?_⟩
  · refine hwaits.of_eq rfl ?_ (fun _ _ hlease => hlease) rfl
    obtain ⟨location, _, hlocation, _, hstate, _⟩ := unobstructed_eq_true hwaits.task hwaits.free
    rw [Table.lookup_mapRows, hlocation, Option.map_some, if_neg]
    simp [hstate]
  · cases hahead with
    | opened hrow hdeleted hblocked hturn => exact .opened hrow hdeleted hblocked hturn
    | tombstoned hnone hlocation hstate hafter hturn =>
        rw [Table.lookup_mapRows, Option.map_eq_some_iff] at hlocation
        obtain ⟨old, hold, rfl⟩ := hlocation
        split_ifs at hstate hafter
        · have hnow := hwaits.turn
          rw [Option.some.injEq] at hafter
          rw [deleteGraceSeconds] at hafter
          omega
        · exact .tombstoned hnone hold hstate hafter hturn

theorem nearer_of_createTasks {answer : Bool} (h : execute .createTasks before = some (after, answer)) :
    Nearer id row before after := by
  have hsurroundings := (execute_committed h).surroundings
  obtain ⟨lifecycle, hchange, hafter⟩ := execute_task_change h rfl
  simp only [execute, Option.map_eq_some_iff, Prod.mk.injEq] at h
  obtain ⟨created, hcreated, rfl, _⟩ := h
  have hopens := executeCreateTasks_opens hcreated
  have hobjects : created.objects = before.objects := by rw [hafter]
  have hleases : KeepsLeases before created := by
    rw [executeCreateTasks, Option.some.injEq] at hcreated
    rw [← hcreated]
    exact fun _ _ hlease => hlease
  refine ⟨by rw [Database.now, Database.now, hsurroundings], fun hwaits => ?_, fun hwaits other hahead => ?_⟩
  · refine hwaits.of_eq ?_ (by rw [hobjects]) hleases hsurroundings
    rcases hopens id with hsame | ⟨hnone, _⟩
    · exact hsame
    · rw [hwaits.task] at hnone
      cases hnone
  · rcases hopens other with hsame | ⟨hnone, task, htask, hpending, _, hretry, location, hlocation, hstate, hdeleteAfter⟩
    · cases hahead with
      | opened hrow hdeleted hblocked hturn => exact .opened (hsame ▸ hrow) hdeleted hblocked hturn
      | tombstoned hnone hlocation hstate hafter hturn =>
          exact .tombstoned (hsame ▸ hnone) (hobjects ▸ hlocation) hstate hafter hturn
    · cases hahead with
      | opened hrow _ _ hturn =>
          rw [htask] at hrow
          cases hrow
          rw [LocationDeleteTaskRow.turn, hretry] at hturn
          exact .tombstoned hnone hlocation hstate hdeleteAfter hturn
      | tombstoned hnone' _ _ _ _ =>
          rw [htask] at hnone'
          cases hnone'

end Nearer

/-! ### The task that a pass turns to -/

theorem firstByTime_one {candidates : List (Nat × Identity)} {time : Nat} {id : Identity} (h : (time, id) ∈ candidates) :
    ∃ early first, firstByTime 1 candidates = [first] ∧ (early, first) ∈ candidates ∧ early ≤ time := by
  have htotal : Std.Total fun left right : Nat × Identity =>
      left.1 < right.1 ∨ (left.1 = right.1 ∧ left.2.val ≤ right.2.val) := ⟨fun left right => by
    have hvals := Std.Total.total (r := (· ≤ ·)) left.2.val right.2.val
    rcases lt_trichotomy left.1 right.1 with hlt | heq | hgt
    · exact .inl (.inl hlt)
    · exact hvals.imp (fun hle => .inr ⟨heq, hle⟩) (fun hle => .inr ⟨heq.symm, hle⟩)
    · exact .inr (.inl hgt)⟩
  have htrans : IsTrans (Nat × Identity) fun left right =>
      left.1 < right.1 ∨ (left.1 = right.1 ∧ left.2.val ≤ right.2.val) := ⟨fun left middle right hfirst hsecond => by
    rcases hfirst with hfirst | ⟨hfirst, hle⟩ <;> rcases hsecond with hsecond | ⟨hsecond, hle'⟩
    · exact .inl (hfirst.trans hsecond)
    · exact .inl (hsecond ▸ hfirst)
    · exact .inl (hfirst ▸ hsecond)
    · exact .inr ⟨hfirst.trans hsecond, List.le_trans hle hle'⟩⟩
  have hsorted := List.pairwise_insertionSort (fun left right : Nat × Identity =>
    left.1 < right.1 ∨ (left.1 = right.1 ∧ left.2.val ≤ right.2.val)) candidates
  have hperm := List.perm_insertionSort (fun left right : Nat × Identity =>
    left.1 < right.1 ∨ (left.1 = right.1 ∧ left.2.val ≤ right.2.val)) candidates
  rw [firstByTime]
  generalize (candidates.insertionSort fun left right =>
    left.1 < right.1 ∨ (left.1 = right.1 ∧ left.2.val ≤ right.2.val)) = sorted at hsorted hperm
  cases sorted with
  | nil => exact absurd (hperm.mem_iff.mpr h) List.not_mem_nil
  | cons first rest =>
      refine ⟨first.1, first.2, rfl, hperm.mem_iff.mp List.mem_cons_self, ?_⟩
      rcases List.mem_cons.mp (hperm.mem_iff.mpr h) with rfl | hrest
      · exact le_rfl
      · have hle := (List.pairwise_cons.mp hsorted).1 (time, id) hrest
        dsimp only at hle
        omega

section Turn

variable {db : Database} {id : Identity} {clock : Nat} {row : LocationDeleteTaskRow}

theorem nextDeletion_of_due (hrow : db.deleteTask id = some row) (hdue : locationTaskDue row clock = true) :
    ∃ first found, db.nextDeletion clock = [first] ∧ db.deleteTask first = some found ∧
      locationTaskDue found clock = true ∧ found.turn ≤ row.turn := by
  have hcandidate : (row.turn, id) ∈ db.lifecycle.locationTasks.entries.filterMap fun row =>
      if locationTaskDue row.2 clock then some (row.2.retryAt.getD row.2.deleteAfter, row.1) else none :=
    List.mem_filterMap.mpr ⟨⟨id, row⟩, Table.mem_entries_iff.mpr hrow, if_pos hdue⟩
  obtain ⟨early, first, hnext, hmem, hle⟩ := firstByTime_one hcandidate
  obtain ⟨found, hfound, heq⟩ := List.mem_filterMap.mp hmem
  split_ifs at heq with hfoundDue
  cases heq
  exact ⟨found.1, found.2, hnext, Table.mem_entries_iff.mp hfound, hfoundDue, hle⟩

theorem executeLocationClaim_of_due (hrow : db.deleteTask id = some row) (hdue : locationTaskDue row clock = true) :
    ∃ after claim, execute (.locationClaim id clock) db = some (after, true) ∧ after.deleteTask id = some claim ∧
      claim.state = .claimed ∧ claim.leaseExpiresAt.any (· > clock) = true ∧ claim.deleteAfter = row.deleteAfter ∧
      activeLease after id clock = activeLease db id clock ∧ after.unobstructed id = db.unobstructed id := by
  simp only [execute, executeLocationClaim, show db.lifecycle.locationTasks.lookup id = some row from hrow, if_pos hdue]
  have hfound : ∀ claim : LocationDeleteTaskRow, (db.lifecycle.locationTasks.insert id claim).lookup id = some claim := by
    intro claim
    rw [Table.lookup_insert_eq, if_pos rfl]
  refine ⟨_, _, rfl, hfound _, rfl, ?_, rfl, rfl, ?_⟩
  · simp [claimSeconds]
  · simp only [Database.unobstructed, Database.deleteTask, Table.lookup_insert_eq, if_pos,
      show db.lifecycle.locationTasks.lookup id = some row from hrow]
    cases db.objects.locations.lookup id <;> rfl

theorem executeLocationClaim_fence {after : Database} (h : execute (.locationClaim id clock) db = some (after, true)) :
    ∃ row claim, db.deleteTask id = some row ∧ after.deleteTask id = some claim ∧
      row.fencingToken < claim.fencingToken := by
  simp only [execute, executeLocationClaim] at h
  split at h
  · rename_i row hrow
    split_ifs at h
    · rw [Option.some.injEq, Prod.mk.injEq] at h
      rw [← h.1, Database.deleteTask]
      exact ⟨row, _, hrow, (Table.lookup_insert_eq _ _ _ _).trans (if_pos rfl), Nat.lt_succ_self _⟩
    · simp at h
  · simp at h

/-- Nothing but the task and the location under one name changed. -/
structure OnlyAt (id : Identity) (before after : Database) : Prop where
  task : ∀ other, other ≠ id → after.deleteTask other = before.deleteTask other
  location : ∀ other, other ≠ id → after.objects.locations.lookup other = before.objects.locations.lookup other
  leases : after.lifecycle.readLeases = before.lifecycle.readLeases
  surroundings : after.surroundings = before.surroundings

theorem OnlyAt.refl (id : Identity) (db : Database) : OnlyAt id db db := ⟨fun _ _ => rfl, fun _ _ => rfl, rfl, rfl⟩

theorem OnlyAt.trans {first second third : Database} (h : OnlyAt id first second) (h' : OnlyAt id second third) :
    OnlyAt id first third where
  task other hother := (h'.task other hother).trans (h.task other hother)
  location other hother := (h'.location other hother).trans (h.location other hother)
  leases := h'.leases.trans h.leases
  surroundings := h'.surroundings.trans h.surroundings

theorem OnlyAt.insert_task (id : Identity) (db : Database) (row : LocationDeleteTaskRow) :
    OnlyAt id db { db with
      lifecycle := { db.lifecycle with locationTasks := db.lifecycle.locationTasks.insert id row } } where
  task _ hother := (Table.lookup_insert_eq _ _ _ _).trans (if_neg hother)
  location := fun _ _ => rfl
  leases := rfl
  surroundings := rfl

/-- The task is done, given up, or put off beyond `clock`. -/
def PutOff (id : Identity) (clock : Nat) (db : Database) : Prop :=
  ∃ row, db.deleteTask id = some row ∧
    (row.state = .deleted ∨ row.state = .blocked ∨ ∃ retryAt, row.retryAt = some retryAt ∧ clock < retryAt)

theorem PutOff.not_ahead (h : PutOff id clock db) {time : Nat} (htime : time ≤ clock) : ¬db.Ahead time id := by
  obtain ⟨row, hrow, hstate⟩ := h
  intro hahead
  cases hahead with
  | @opened found hfound hdeleted hblocked hturn =>
      rw [hrow] at hfound
      cases hfound
      obtain ⟨retryAt, hretry, hlater⟩ := (hstate.resolve_left hdeleted).resolve_left hblocked
      rw [LocationDeleteTaskRow.turn, hretry, Option.getD_some] at hturn
      omega
  | tombstoned hnone _ _ _ _ =>
      rw [hrow] at hnone
      cases hnone

theorem executeLocationFail_putOff {fencingToken : Nat} {retryAt : Option Nat} (hretry : ∀ time ∈ retryAt, clock < time)
    (h : HoldsClaim id fencingToken clock db ∨ PutOff id clock db) :
    ∃ after answer, execute (.locationFail id fencingToken retryAt) db = some (after, answer) ∧ OnlyAt id db after ∧
      PutOff id clock after := by
  obtain ⟨row, hrow⟩ : ∃ row, db.deleteTask id = some row := by
    rcases h with ⟨row, hrow, _⟩ | ⟨row, hrow, _⟩
    · exact ⟨row, hrow⟩
    · exact ⟨row, hrow⟩
  simp only [execute, executeLocationFail, show db.lifecycle.locationTasks.lookup id = some row from hrow]
  by_cases hclaimed : row.state = .claimed ∧ row.fencingToken = fencingToken
  · rw [if_pos hclaimed]
    refine ⟨_, _, rfl, .insert_task id db _, _, (Table.lookup_insert_eq _ _ _ _).trans (if_pos rfl), ?_⟩
    cases retryAt with
    | none => exact .inr (.inl rfl)
    | some time => exact .inr (.inr ⟨time, rfl, hretry time rfl⟩)
  · rw [if_neg hclaimed]
    refine ⟨_, _, rfl, .refl id db, h.resolve_left ?_⟩
    rintro ⟨found, hfound, hstate, hfence, _⟩
    rw [hrow] at hfound
    cases hfound
    exact hclaimed ⟨hstate, hfence⟩

/-- A deletion that is recorded ends the claim; one that is not may leave it. -/
theorem executeLocationComplete_putOff {fencingToken : Nat} (expectedRevision : Nat)
    (h : HoldsClaim id fencingToken clock db) :
    ∃ after answer, execute (.locationComplete id expectedRevision fencingToken clock) db = some (after, answer) ∧
      OnlyAt id db after ∧ (HoldsClaim id fencingToken clock after ∨ PutOff id clock after) ∧
      (answer = true → PutOff id clock after) := by
  obtain ⟨row, hrow, hclaim⟩ := h
  simp only [execute, executeLocationComplete, show db.lifecycle.locationTasks.lookup id = some row from hrow]
  split
  · rename_i task location htask hlocation
    cases htask
    refine ⟨_, _, rfl, ⟨?_, ?_, rfl, rfl⟩, ?_, ?_⟩
    · intro other hother
      dsimp only [Database.deleteTask]
      split_ifs
      all_goals first | rfl | rw [Table.lookup_insert_eq, if_neg hother]
    · intro other hother
      dsimp only
      split_ifs
      · rw [Table.lookup_insert_eq, if_neg hother]
      · rfl
    · dsimp only [HoldsClaim, PutOff, Database.deleteTask]
      split_ifs
      · exact .inr ⟨_, (Table.lookup_insert_eq _ _ _ _).trans (if_pos rfl), .inl rfl⟩
      · exact .inl ⟨row, hrow, hclaim⟩
      · exact .inr ⟨_, (Table.lookup_insert_eq _ _ _ _).trans (if_pos rfl), .inl rfl⟩
      · exact .inl ⟨row, hrow, hclaim⟩
    · intro hanswer
      rw [Bool.and_eq_true, decide_eq_true_eq, decide_eq_true_eq] at hanswer
      dsimp only [PutOff, Database.deleteTask]
      rw [if_pos hanswer.2]
      exact ⟨_, (Table.lookup_insert_eq _ _ _ _).trans (if_pos rfl), .inl rfl⟩
  · exact ⟨db, false, rfl, .refl id db, .inl ⟨row, hrow, hclaim⟩, by simp⟩

variable (reply : Effect → Answer)

theorem failLocation_alone {fencingToken : Nat} (blocked : Bool) (next : Handler)
    (h : HoldsClaim id fencingToken clock db ∨ PutOff id clock db) :
    ∃ after, (failLocation id fencingToken clock blocked next).runAlone execute reply db =
        next.runAlone execute reply after ∧ OnlyAt id db after ∧ PutOff id clock after := by
  have hretry : ∀ time ∈ (if blocked then none else some (clock + retryDelay fencingToken fencingToken) : Option Nat),
      clock < time := by
    intro time htime
    cases blocked with
    | true => cases htime
    | false =>
        cases htime
        have hdelay : 0 < retryDelay fencingToken fencingToken := by
          have hpower := Nat.pow_pos (n := min (fencingToken - 1) 8) Nat.zero_lt_two
          rw [retryDelay]
          omega
        omega
  obtain ⟨after, answer, hexecute, honly, hput⟩ := executeLocationFail_putOff hretry h
  refine ⟨after, ?_, honly, hput⟩
  rw [failLocation, Program.runAlone, hexecute]

theorem revalidate_alone {fencingToken : Nat} (next : Handler) (h : HoldsClaim id fencingToken clock db) :
    ∃ after, (revalidate clock id fencingToken next db).runAlone execute reply db = next.runAlone execute reply after ∧
      OnlyAt id db after ∧ PutOff id clock after := by
  unfold revalidate
  cases hload : loadRevalidated db id clock with
  | none => exact failLocation_alone reply true next (.inl h)
  | some found =>
      obtain ⟨task, driver⟩ := found
      have hfence : task.fencingToken = fencingToken := by
        obtain ⟨row, hrow, _, hfence, _⟩ := h
        rw [(loadRevalidated_task hload).1] at hrow
        cases hrow
        exact hfence
      dsimp only
      rw [hfence]
      cases driver.kind.filter DriverKind.controlPlane with
      | none => exact failLocation_alone reply true next (.inl h)
      | some kind =>
          dsimp only
          rw [Program.runAlone]
          cases reply (.deleteObject (.location id) kind task.driverId task.storageKey task.provider task.sizeBytes) with
          | retry => exact failLocation_alone reply false next (.inl h)
          | blocked => exact failLocation_alone reply true next (.inl h)
          | done =>
              obtain ⟨after, answer, hexecute, honly, hclaim, hput⟩ :=
                executeLocationComplete_putOff task.expectedLocationRevision h
              dsimp only
              rw [Program.runAlone, hexecute]
              cases answer with
              | true => exact ⟨after, rfl, honly, hput rfl⟩
              | false =>
                  obtain ⟨last, hrun, hlast, hput⟩ := failLocation_alone reply true next hclaim
                  exact ⟨last, hrun, honly.trans hlast, hput⟩

/-- A pass that turns to a location leaves its task done, given up or put off. -/
theorem deleteOne_alone (next : Handler) (hnext : db.nextDeletion clock = [id]) :
    ∃ after, (deleteOne clock next).runAlone execute reply db = next.runAlone execute reply after ∧
      OnlyAt id db after ∧ PutOff id clock after := by
  obtain ⟨row, hrow, hdue⟩ := mem_nextDeletion (hnext ▸ List.mem_singleton_self id)
  have hclaimed : ∃ claimed, execute (.locationClaim id clock) db = some (claimed, true) ∧ OnlyAt id db claimed ∧
      ∃ claim, claimed.deleteTask id = some claim ∧ claim.state = .claimed ∧
        claim.leaseExpiresAt.any (· > clock) = true := by
    simp only [execute, executeLocationClaim, show db.lifecycle.locationTasks.lookup id = some row from hrow, if_pos hdue]
    refine ⟨_, rfl, .insert_task id db _, _, (Table.lookup_insert_eq _ _ _ _).trans (if_pos rfl), rfl, ?_⟩
    simp [claimSeconds]
  obtain ⟨claimed, hexecute, honly, claim, hclaim, hstate, hlease⟩ := hclaimed
  have hheld : (claimed.deleteTask id).filter (fun task =>
      task.state == .claimed && task.leaseExpiresAt.any (· > clock)) = some claim := by
    rw [hclaim, Option.filter_some, if_pos]
    rw [hstate, hlease]
    rfl
  obtain ⟨after, hrun, hlast, hput⟩ := revalidate_alone reply next ⟨claim, hclaim, hstate, rfl, hlease⟩
  refine ⟨after, ?_, honly.trans hlast, hput⟩
  rw [deleteOne_eq, ← hrun]
  simp only [Program.runAlone, hnext, hexecute, ne_eq, not_true_eq_false, if_false, hheld]

theorem Waits.deleteOne_deletes (h : Waits id row db) (hreply : DeletesObject reply id) (next : Handler)
    (hnext : db.nextDeletion db.now = [id]) :
    ∃ after, (deleteOne db.now next).runAlone execute reply db = next.runAlone execute reply after ∧ after.Deleted id := by
  obtain ⟨claimed, claim, hexecute, hclaim, hstate, hlease, hsame, hactive, hfree⟩ := executeLocationClaim_of_due h.task h.due
  rw [h.leases] at hactive
  rw [h.free] at hfree
  obtain ⟨driver, hload, hreached⟩ :=
    loadRevalidated_of_unobstructed hclaim hstate hlease (hsame ▸ h.deleteAfter) hactive hfree
  obtain ⟨kind, hkind, hcontrol⟩ := (Option.any_eq_true _ _).mp hreached
  obtain ⟨after, hcomplete, htask, hlocation⟩ :=
    executeLocationComplete_of_unobstructed hclaim hstate hlease hactive hfree
  refine ⟨after, ?_, by rw [htask, Option.map_some], hlocation⟩
  have hheld : (claimed.deleteTask id).filter (fun task =>
      task.state == .claimed && task.leaseExpiresAt.any (· > db.now)) = some claim := by
    rw [hclaim, Option.filter_some, if_pos]
    rw [hstate, hlease]
    rfl
  have hfilter : driver.kind.filter DriverKind.controlPlane = some kind := by
    rw [hkind, Option.filter_some, if_pos hcontrol]
  have hfinish : execute (.locationComplete id claim.expectedLocationRevision claim.fencingToken db.now) claimed =
      some (after, true) := hcomplete
  rw [deleteOne_eq]
  simp only [Program.runAlone, hnext, hexecute, ne_eq, not_true_eq_false, if_false, hheld, revalidate, hload, hfilter,
    hreply kind claim.driverId claim.storageKey claim.provider claim.sizeBytes, hfinish, if_true]

end Turn

/-! ### One pass -/

section Pass

variable {id : Identity} {row : LocationDeleteTaskRow} {db : Database} {reply : Effect → Answer}

/-- The rest of a pass is about puts and uploads. -/
def passTail (now : Nat) : Handler :=
  deleteOneAbandonedPut now <| cleanupOneUpload now <| .done (.ok .completed)

theorem cleanupOneUpload_onUploads (now : Nat) {next : Handler} (hnext : next.Submits Mutation.onUploads) :
    (cleanupOneUpload now next).Submits Mutation.onUploads := by
  intro first
  dsimp only
  split
  · exact hnext
  refine ⟨trivial, fun claimed => ?_⟩
  dsimp only
  split_ifs
  · exact hnext
  intro second
  dsimp only
  split
  · exact hnext
  split
  · exact ⟨trivial, fun _ => hnext⟩
  intro answer
  dsimp only
  split_ifs
  · exact ⟨trivial, fun _ => hnext⟩
  · exact ⟨trivial, fun _ => hnext⟩

theorem deleteOneAbandonedPut_onUploads (now : Nat) {next : Handler} (hnext : next.Submits Mutation.onUploads) :
    (deleteOneAbandonedPut now next).Submits Mutation.onUploads := by
  intro first
  dsimp only
  split
  · exact hnext
  refine ⟨trivial, fun claimed => ?_⟩
  dsimp only
  split_ifs
  · exact hnext
  intro second
  dsimp only
  split
  · exact hnext
  intro third
  dsimp only
  split
  · exact ⟨trivial, fun _ => hnext⟩
  split
  · exact ⟨trivial, fun _ => hnext⟩
  intro answer
  cases answer with
  | done => exact ⟨trivial, fun _ => hnext⟩
  | retry => exact ⟨trivial, fun _ => hnext⟩
  | blocked => exact ⟨trivial, fun _ => hnext⟩

theorem passTail_nearer (now : Nat) (db : Database) :
    Nearer id row db ((passTail now).runAlone execute reply db).2 := by
  have hsubmits : (passTail now).Submits Mutation.onUploads :=
    deleteOneAbandonedPut_onUploads now (cleanupOneUpload_onUploads now trivial)
  exact hsubmits.runAlone (Nearer.refl id row) Nearer.trans (fun _ _ _ _ => nearer_of_onUploads) db

variable (id row reply) in
theorem write_alone (mutation : Mutation) (next : Option Bool → Handler) (db : Database)
    (hnearer : ∀ after answer, execute mutation db = some (after, answer) → Nearer id row db after) :
    ∃ after answer, (Program.write mutation next).runAlone execute reply db = (next answer).runAlone execute reply after ∧
      Nearer id row db after := by
  rw [Program.runAlone]
  cases hexecute : execute mutation db with
  | none => exact ⟨db, none, rfl, .refl id row db⟩
  | some result => exact ⟨result.1, some result.2, rfl, hnearer result.1 result.2 hexecute⟩

variable (id row reply) in
theorem maintain_alone (db : Database) :
    ∃ middle, maintain.runAlone execute reply db =
        (deleteOne middle.now (passTail middle.now)).runAlone execute reply middle ∧ Nearer id row db middle := by
  obtain ⟨first, _, hfirst, hnearer⟩ := write_alone id row reply (.maintenance db.now)
    (fun _ => .write (.uploadPrune db.now) fun _ => runLifecycle db.now) db fun _ _ => nearer_of_onUploads trivial
  obtain ⟨second, _, hsecond, hnearer'⟩ := write_alone id row reply (.uploadPrune db.now)
    (fun _ => runLifecycle db.now) first fun _ _ => nearer_of_onUploads trivial
  have hsecond_near := hnearer.trans hnearer'
  obtain ⟨third, _, hthird, hmarked⟩ := write_alone id row reply (.markUnreachable db.now)
    (fun _ => .write .createTasks fun _ => deleteOne db.now (passTail db.now)) second
    (hsecond_near.now ▸ fun _ _ => nearer_of_markUnreachable)
  obtain ⟨fourth, _, hfourth, hcreated⟩ := write_alone id row reply .createTasks
    (fun _ => deleteOne db.now (passTail db.now)) third fun _ _ => nearer_of_createTasks
  have hnear := (hsecond_near.trans hmarked).trans hcreated
  refine ⟨fourth, ?_, hnear⟩
  rw [hnear.now]
  exact hfirst.trans (hsecond.trans (hthird.trans hfourth))

theorem Database.Deleted.execute {mutation : Mutation} {after : Database} {answer : Bool} (h : db.Deleted id)
    (hexecute : Skydriver.execute mutation db = some (after, answer)) : after.Deleted id where
  task := by
    obtain ⟨row, hrow, hstate⟩ := Option.map_eq_some_iff.mp h.task
    have hstep := taskStep_of_execute hexecute id
    rw [hrow] at hstep
    generalize after.deleteTask id = new at hstep
    cases hstep with
    | same _ => exact congrArg some hstate
    | claimed hdue => simp [locationTaskDue, hstate] at hdue
    | failed hclaimed => simp [hstate] at hclaimed
    | deleted _ => rfl
  location := by
    obtain ⟨location, hlocation, hstate⟩ := Option.map_eq_some_iff.mp h.location
    obtain ⟨new, hnew, hevolves⟩ := (execute_committed hexecute).leasesClosed.locations id location hlocation
    rw [hnew, Option.map_some, hevolves.deleted hstate]

def KeepsDeleted (id : Identity) (before after : Database) : Prop := before.Deleted id → after.Deleted id

theorem Database.Deleted.runAlone (h : db.Deleted id) (handler : Handler) :
    (handler.runAlone Skydriver.execute reply db).2.Deleted id := by
  have hkept : KeepsDeleted id db (handler.runAlone Skydriver.execute reply db).2 :=
    (Program.submits_any handler).runAlone (fun _ hdeleted => hdeleted)
      (fun hfirst hsecond hdeleted => hsecond (hfirst hdeleted))
      (fun _ _ _ _ _ hexecute hdeleted => hdeleted.execute hexecute) db
  exact hkept h

theorem Waits.pass (h : Waits id row db) (hreply : DeletesObject reply id) :
    (maintain.runAlone execute reply db).2.Deleted id ∨
      (Waits id row (maintain.runAlone execute reply db).2 ∧
        {other | (maintain.runAlone execute reply db).2.Ahead row.turn other} ⊂ {other | db.Ahead row.turn other}) := by
  obtain ⟨middle, hrun, hnearer⟩ := maintain_alone id row reply db
  have hwaits := hnearer.waits h
  obtain ⟨first, found, hnext, hfound, hdue, hle⟩ := nextDeletion_of_due hwaits.task hwaits.due
  rw [hrun]
  by_cases hfirst : first = id
  · subst hfirst
    obtain ⟨after, hdelete, hdeleted⟩ := hwaits.deleteOne_deletes reply hreply (passTail middle.now) hnext
    rw [hdelete]
    exact .inl (hdeleted.runAlone _)
  · obtain ⟨after, hdelete, honly, hput⟩ := deleteOne_alone reply (passTail middle.now) hnext
    have hkept : Waits id row after := by
      refine hwaits.of_eq (honly.task id (Ne.symm hfirst)) (honly.location id (Ne.symm hfirst)) ?_ honly.surroundings
      exact fun _ _ hlease => honly.leases ▸ hlease
    have htail : Nearer id row after ((passTail middle.now).runAlone execute reply after).2 := passTail_nearer _ _
    rw [hdelete]
    refine .inr ⟨htail.waits hkept, Set.ssubset_iff_of_subset ?_ |>.mpr ⟨first, ?_, ?_⟩⟩
    · intro other hahead
      have hafter := htail.ahead hkept other hahead
      have hother : other ≠ first := by
        rintro rfl
        exact hput.not_ahead hwaits.turn hafter
      apply hnearer.ahead h other
      cases hafter with
      | opened hrow hdeleted hblocked hturn =>
          exact .opened ((honly.task other hother).symm.trans hrow) hdeleted hblocked hturn
      | tombstoned hnone hlocation hstate hafter hturn =>
          exact .tombstoned ((honly.task other hother).symm.trans hnone)
            ((honly.location other hother).symm.trans hlocation) hstate hafter hturn
    · apply hnearer.ahead h first
      refine .opened hfound ?_ ?_ hle
      · intro hstate
        simp [locationTaskDue, hstate] at hdue
      · intro hstate
        simp [locationTaskDue, hstate] at hdue
    · intro hahead
      exact hput.not_ahead hwaits.turn (htail.ahead hkept first hahead)

end Pass

/-! ### Any number of passes -/

section Passes

variable {id : Identity} {row : LocationDeleteTaskRow} {db : Database}

theorem locationTaskDue_mono {clock time : Nat} (htime : clock ≤ time) (h : locationTaskDue row clock = true) :
    locationTaskDue row time = true := by
  simp only [locationTaskDue, Bool.or_eq_true, Bool.and_eq_true, decide_eq_true_eq, Option.any_eq_true] at h ⊢
  rcases h with (⟨hstate, hle⟩ | ⟨hstate, retryAt, hretry, hle⟩) | ⟨hstate, expiresAt, hexpires, hle⟩
  · exact .inl (.inl ⟨hstate, hle.trans htime⟩)
  · exact .inl (.inr ⟨hstate, retryAt, hretry, hle.trans htime⟩)
  · exact .inr ⟨hstate, expiresAt, hexpires, hle.trans htime⟩

theorem Waits.atTime {time : Nat} (h : Waits id row db) (htime : db.now ≤ time) : Waits id row (db.atTime time) where
  task := h.task
  due := locationTaskDue_mono htime h.due
  deleteAfter := h.deleteAfter.trans htime
  turn := h.turn.trans htime
  leases := by
    have hleases := h.leases
    rw [activeLease, Table.any_eq_false] at hleases ⊢
    intro leaseId lease hlease
    have hended := hleases leaseId lease hlease
    simp only [Bool.and_eq_false_iff, decide_eq_false_iff_not, gt_iff_lt, not_lt] at hended ⊢
    exact hended.imp_right fun hle => hle.trans htime
  free := h.free

theorem Database.ahead_atTime (db : Database) (time turn : Nat) (other : Identity) :
    (db.atTime time).Ahead turn other ↔ db.Ahead turn other := by
  constructor
  · intro h
    cases h with
    | opened hrow hdeleted hblocked hturn => exact .opened hrow hdeleted hblocked hturn
    | tombstoned hnone hlocation hstate hafter hturn => exact .tombstoned hnone hlocation hstate hafter hturn
  · intro h
    cases h with
    | opened hrow hdeleted hblocked hturn => exact .opened hrow hdeleted hblocked hturn
    | tombstoned hnone hlocation hstate hafter hturn => exact .tombstoned hnone hlocation hstate hafter hturn

theorem Waits.passedAlone (h : Waits id row db) {passes : Nat} {after : Database} (hpassed : PassedAlone id passes db after) :
    after.Deleted id ∨ (Waits id row after ∧
      {other | after.Ahead row.turn other}.ncard + passes ≤ {other | db.Ahead row.turn other}.ncard) := by
  induction hpassed with
  | none => exact .inr ⟨h, le_rfl⟩
  | @pass passes time db middle reply _ htime hreply ih =>
      rcases ih h with hdeleted | ⟨hwaits, hcount⟩
      · have hdeleted : (middle.atTime time).Deleted id := ⟨hdeleted.task, hdeleted.location⟩
        exact .inl (hdeleted.runAlone maintain)
      · refine ((hwaits.atTime htime).pass hreply).imp_right fun hpass => ⟨hpass.1, ?_⟩
        have hfewer := Set.ncard_lt_ncard hpass.2 (Database.finite_ahead _ _)
        simp only [Database.ahead_atTime] at hfewer
        omega

/-- The object of a task that waits is deleted once there were more passes than tasks in front of it. -/
theorem Waits.deleted (h : Waits id row db) :
    ∃ enough, ∀ passes ≥ enough, ∀ after, PassedAlone id passes db after → after.Deleted id := by
  refine ⟨{other | db.Ahead row.turn other}.ncard + 1, ?_⟩
  intro passes hpasses after hpassed
  rcases h.passedAlone hpassed with hdeleted | ⟨_, hcount⟩
  · exact hdeleted
  · omega

end Passes

end Skydriver
