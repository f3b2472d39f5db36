import Skydriver.Lib.Observing
import Skydriver.Control.Leases

/-!
# What keeps an object from being deleted

A pass claims a delete task, looks at its location once more, and gives the task up for good if the look fails.  A read
lease is one of many reasons for that, and the only one that ends by itself.  In the runs in which no pass looks at a
location while a lease on it is active, a task is given up only for a reason that stays, and every claimed task is
deleted or comes due again.
-/

namespace Skydriver

abbrev Database.deleteTask (db : Database) (id : Identity) : Option LocationDeleteTaskRow :=
  db.lifecycle.locationTasks.lookup id

/-- The object of a delete task may be deleted, time and read leases apart: its location and its driver are as they were
recorded, and the control plane reaches the driver. -/
def Database.unobstructed (db : Database) (id : Identity) : Bool :=
  match db.deleteTask id, db.objects.locations.lookup id with
  | some task, some location =>
      location.state == .tombstoned && location.revision == task.expectedLocationRevision &&
        location.driverId == task.driverId && location.storageKey == task.storageKey &&
        location.provider == task.provider && location.sizeBytes == task.sizeBytes &&
        (db.surroundings.drivers.lookup task.driverId).any fun driver =>
          driver.enabled && driver.revision == task.driverRevision && driver.kind.any DriverKind.controlPlane
  | _, _ => false

/-! ### Delete tasks over time -/

structure Opens (db : Database) (id : Identity) (task : LocationDeleteTaskRow) : Prop where
  pending : task.state = .pending
  fence : task.fencingToken = 0
  retryAt : task.retryAt = none
  location : ∃ location, db.objects.locations.lookup id = some location ∧ location.state = .tombstoned ∧
    location.deleteAfter = some task.deleteAfter

inductive TaskStep (id : Identity) : Mutation → Option LocationDeleteTaskRow → Option LocationDeleteTaskRow → Prop where
  | same {mutation : Mutation} (task : Option LocationDeleteTaskRow) : TaskStep id mutation task task
  | opened {mutation : Mutation} {db : Database} {task : LocationDeleteTaskRow} (hopens : Opens db id task) :
      TaskStep id mutation none (some task)
  | claimed {task : LocationDeleteTaskRow} {clock : Nat} (hdue : locationTaskDue task clock = true) :
      TaskStep id (.locationClaim id clock) (some task)
        (some { task with
          state := .claimed
          fencingToken := task.fencingToken + 1
          leaseExpiresAt := some (clock + claimSeconds)
          retryAt := none })
  | failed {task : LocationDeleteTaskRow} {retryAt : Option Nat} (hclaimed : task.state = .claimed) :
      TaskStep id (.locationFail id task.fencingToken retryAt) (some task)
        (some { task with
          state := if retryAt.isSome then .retry else .blocked
          leaseExpiresAt := none
          retryAt := retryAt })
  | deleted {mutation : Mutation} {task : LocationDeleteTaskRow} (hclaimed : task.state = .claimed) :
      TaskStep id mutation (some task) (some { task with state := .deleted, leaseExpiresAt := none })

theorem foldl_opens {opens : Identity → LocationDeleteTaskRow → Prop} {fresh : List Identity}
    {step : Table Identity LocationDeleteTaskRow → Identity → Table Identity LocationDeleteTaskRow}
    {start : Table Identity LocationDeleteTaskRow} (hfresh : ∀ found ∈ fresh, start.lookup found = none)
    (hstep : ∀ tasks, ∀ found ∈ fresh, step tasks found = tasks ∨
      ∃ task, step tasks found = tasks.insert found task ∧ opens found task) {id : Identity}
    {tasks : Table Identity LocationDeleteTaskRow}
    (htasks : tasks.lookup id = start.lookup id ∨
      start.lookup id = none ∧ ∃ task, tasks.lookup id = some task ∧ opens id task) :
    (fresh.foldl step tasks).lookup id = start.lookup id ∨
      start.lookup id = none ∧ ∃ task, (fresh.foldl step tasks).lookup id = some task ∧ opens id task := by
  induction fresh generalizing tasks with
  | nil => exact htasks
  | cons first fresh ih =>
      rw [List.forall_mem_cons] at hfresh
      rw [List.foldl_cons]
      refine ih hfresh.2 (fun tasks found hfound => hstep tasks found (List.mem_cons_of_mem _ hfound)) ?_
      rcases hstep tasks first List.mem_cons_self with hsame | ⟨task, hinsert, hopens⟩
      · rw [hsame]
        exact htasks
      · rw [hinsert, Table.lookup_insert_eq]
        split_ifs with hid
        · exact .inr ⟨hid ▸ hfresh.1, task, rfl, hid ▸ hopens⟩
        · exact htasks

theorem executeCreateTasks_opens {db after : Database} (h : executeCreateTasks db = some after) (id : Identity) :
    after.deleteTask id = db.deleteTask id ∨
      db.deleteTask id = none ∧ ∃ task, after.deleteTask id = some task ∧ Opens db id task := by
  rw [executeCreateTasks, Option.some.injEq] at h
  subst h
  have hfresh : ∀ found ∈ firstByTime maximumTasksPerRun (db.objects.locations.entries.filterMap fun row =>
      if row.2.state = .tombstoned ∧ (db.lifecycle.locationTasks.lookup row.1).isNone then
        row.2.deleteAfter.map fun deleteAfter => (deleteAfter, row.1)
      else none), db.deleteTask found = none ∧
        ∃ location, db.objects.locations.lookup found = some location ∧ location.state = .tombstoned := by
    intro found hfound
    obtain ⟨time, hcandidate⟩ := mem_firstByTime hfound
    obtain ⟨row, hrow, heq⟩ := List.mem_filterMap.mp hcandidate
    split_ifs at heq with hnone
    obtain ⟨_, _, heq⟩ := Option.map_eq_some_iff.mp heq
    cases heq
    exact ⟨Option.isNone_iff_eq_none.mp hnone.2, row.2, Table.mem_entries_iff.mp hrow, hnone.1⟩
  refine foldl_opens (fun found hfound => (hfresh found hfound).1) ?_ (.inl rfl)
  intro tasks found hfound
  obtain ⟨_, location, hlocation, hstate⟩ := hfresh found hfound
  rw [hlocation]
  dsimp only
  split
  · rename_i driver deleteAfter _ hafter
    exact .inr ⟨_, rfl, rfl, rfl, rfl, location, hlocation, hstate, hafter⟩
  · exact .inl rfl

theorem Committed.locationTasks_eq {db after : Database} {mutation : Mutation} (h : Committed db after mutation)
    (hother : mutation.onLocationTasks = false)
    (hcomplete : ∀ id expectedRevision fencingToken now, mutation ≠ .locationComplete id expectedRevision fencingToken now) :
    after.lifecycle.locationTasks = db.lifecycle.locationTasks := by
  cases h with
  | putCommit h =>
      rw [h.lifecycle]
      rfl
  | mkdir h => rw [h.lifecycle]
  | remove h =>
      rw [h.lifecycle]
      rfl
  | rename h => rw [h.lifecycle]
  | putPrepare h =>
      rcases executePutPrepare_eq_some h with rfl | ⟨rfl, _⟩
      · rfl
      · rfl
  | evidence h =>
      obtain ⟨_, rfl⟩ := executeEvidence_eq_some h
      rfl
  | tokenIssue h =>
      obtain ⟨_, _, _, rfl⟩ := executeTokenIssue_eq_some h
      rfl
  | tokenRevoke h =>
      obtain ⟨_, _, _, _, rfl⟩ := executeTokenRevoke_eq_some h
      rfl
  | aclReplace h =>
      obtain ⟨_, _, _, _, rfl⟩ := executeAclReplace_eq_some h
      rfl
  | placementReplace h =>
      obtain ⟨_, _, _, _, _, rfl⟩ := executePlacementReplace_eq_some h
      rfl
  | maintenance h =>
      rw [executeMaintenance, Option.some.injEq] at h
      rw [← h]
  | markUnreachable h =>
      obtain ⟨_, _, rfl, _⟩ := executeMarkUnreachable_eq_some h
      rfl
  | locationComplete _ => exact absurd rfl (hcomplete _ _ _ _)
  | task lifecycle _ hchange h =>
      subst h
      cases hchange with
      | locationTasks hlocation =>
          rw [hother] at hlocation
          cases hlocation
      | _ => rfl

theorem taskStep_of_execute {mutation : Mutation} {db after : Database} {reply : Bool}
    (h : execute mutation db = some (after, reply)) (id : Identity) :
    TaskStep id mutation (db.deleteTask id) (after.deleteTask id) := by
  have hcommitted := execute_committed h
  cases mutation with
  | createTasks =>
      simp only [execute, Option.map_eq_some_iff, Prod.mk.injEq] at h
      obtain ⟨_, hcreated, rfl, _⟩ := h
      rcases executeCreateTasks_opens hcreated id with hsame | ⟨hnone, task, htask, hopens⟩
      · rw [hsame]
        exact .same _
      · rw [hnone, htask]
        exact .opened hopens
  | locationClaim found clock =>
      simp only [execute, executeLocationClaim] at h
      split at h
      · rename_i task htask
        split_ifs at h with hdue
        · cases h
          by_cases hid : id = found
          · subst hid
            simp only [Database.deleteTask, Table.lookup_insert_eq, if_pos, htask]
            exact .claimed hdue
          · simp only [Database.deleteTask, Table.lookup_insert_eq, if_neg hid]
            exact .same _
        · cases h
          exact .same _
      · cases h
        exact .same _
  | locationFail found fencingToken retryAt =>
      simp only [execute, executeLocationFail] at h
      split at h
      · rename_i task htask
        by_cases hfence : task.state = .claimed ∧ task.fencingToken = fencingToken
        · rw [if_pos hfence, Option.some.injEq, Prod.mk.injEq] at h
          obtain ⟨hclaimed, rfl⟩ := hfence
          rw [← h.1]
          by_cases hid : id = found
          · subst hid
            simp only [Database.deleteTask, Table.lookup_insert_eq, if_pos, htask]
            exact .failed hclaimed
          · simp only [Database.deleteTask, Table.lookup_insert_eq, if_neg hid]
            exact .same _
        · rw [if_neg hfence] at h
          cases h
          exact .same _
      · cases h
        exact .same _
  | locationComplete found expectedRevision fencingToken clock =>
      simp only [execute, executeLocationComplete] at h
      split at h
      · rename_i task location htask hlocation
        rw [Option.some.injEq, Prod.mk.injEq] at h
        rw [← h.1]
        split_ifs with hdeletes hfinished hfinished
        all_goals
          by_cases hid : id = found
          · subst hid
            simp only [Database.deleteTask, Table.lookup_insert_eq, if_pos, htask]
            first
              | exact .deleted hfinished.1
              | exact .same _
          · simp only [Database.deleteTask, Table.lookup_insert_eq, if_neg hid]
            exact .same _
      · cases h
        exact .same _
  | _ =>
      rw [Database.deleteTask, Database.deleteTask,
        hcommitted.locationTasks_eq rfl fun _ _ _ _ hcomplete => by cases hcomplete]
      exact .same _

/-- What a row keeps over time: when it may be deleted, a fence that only grows, and the whole row while it is claimed
under one fence. -/
structure TaskKept (old new : LocationDeleteTaskRow) : Prop where
  deleteAfter : new.deleteAfter = old.deleteAfter
  fence : old.fencingToken ≤ new.fencingToken
  claimed : new.fencingToken = old.fencingToken → new.state = .claimed → new = old

theorem TaskKept.refl (row : LocationDeleteTaskRow) : TaskKept row row := ⟨rfl, le_rfl, fun _ _ => rfl⟩

theorem TaskKept.trans {first second third : LocationDeleteTaskRow} (h : TaskKept first second)
    (h' : TaskKept second third) : TaskKept first third where
  deleteAfter := h'.deleteAfter.trans h.deleteAfter
  fence := h.fence.trans h'.fence
  claimed := by
    intro hfence hclaimed
    have hlow := h.fence
    have hhigh := h'.fence
    have hsecond : third = second := h'.claimed (by omega) hclaimed
    subst hsecond
    exact h.claimed hfence hclaimed

theorem TaskStep.kept {id : Identity} {mutation : Mutation} {old : LocationDeleteTaskRow}
    {after : Option LocationDeleteTaskRow} (h : TaskStep id mutation (some old) after) :
    ∃ new, after = some new ∧ TaskKept old new := by
  cases h with
  | same _ => exact ⟨_, rfl, .refl _⟩
  | claimed _ =>
      refine ⟨_, rfl, rfl, Nat.le_succ _, ?_⟩
      intro hfence
      exact absurd hfence (Nat.succ_ne_self _)
  | @failed _ retryAt _ =>
      refine ⟨_, rfl, rfl, le_rfl, ?_⟩
      intro _ hclaimed
      dsimp only at hclaimed
      split_ifs at hclaimed
  | deleted _ =>
      refine ⟨_, rfl, rfl, le_rfl, ?_⟩
      intro _ hclaimed
      cases hclaimed

/-- What two databases of one run have to do with each other: delete tasks are kept, and locations that are not
available get no new leases. -/
structure LaterTasks (id : Identity) (before after : Database) : Prop where
  task : ∀ {old}, before.deleteTask id = some old → ∃ new, after.deleteTask id = some new ∧ TaskKept old new
  closed : LeasesClosed before after

theorem LaterTasks.refl (id : Identity) (db : Database) : LaterTasks id db db :=
  ⟨fun {old} hold => ⟨old, hold, .refl old⟩, .of_eq rfl rfl⟩

theorem LaterTasks.trans {id : Identity} {first second third : Database} (h : LaterTasks id first second)
    (h' : LaterTasks id second third) : LaterTasks id first third where
  task := by
    intro old hold
    obtain ⟨middle, hmiddle, hkept⟩ := h.task hold
    obtain ⟨new, hnew, hkept'⟩ := h'.task hmiddle
    exact ⟨new, hnew, hkept.trans hkept'⟩
  closed := h.closed.trans h'.closed

theorem laterTasks_of_execute {id : Identity} {mutation : Mutation} {db after : Database} {reply : Bool}
    (h : execute mutation db = some (after, reply)) : LaterTasks id db after where
  task := by
    intro old hold
    have hstep := taskStep_of_execute h id
    rw [hold] at hstep
    exact hstep.kept
  closed := (execute_committed h).leasesClosed

theorem laterTasks_of_drift {id : Identity} {db after : Database} (h : Drift db after) : LaterTasks id db after := by
  obtain ⟨_, _, _, rfl⟩ := h
  exact ⟨fun {old} hold => ⟨old, hold, .refl old⟩, .of_eq rfl rfl⟩

/-- A task does not come due before its object may be deleted. -/
def Scheduled (row : LocationDeleteTaskRow) : Prop :=
  (row.state = .retry → ∃ retryAt, row.retryAt = some retryAt ∧ row.deleteAfter ≤ retryAt) ∧
    (row.state = .claimed → ∃ leaseExpiresAt, row.leaseExpiresAt = some leaseExpiresAt ∧ row.deleteAfter ≤ leaseExpiresAt) ∧
    (row.state ≠ .retry → row.retryAt = none)

theorem Scheduled.deleteAfter_le {row : LocationDeleteTaskRow} {clock : Nat} (h : Scheduled row)
    (hdue : locationTaskDue row clock = true) : row.deleteAfter ≤ clock := by
  simp only [locationTaskDue, Bool.or_eq_true, Bool.and_eq_true, beq_iff_eq, decide_eq_true_eq, Option.any_eq_true] at hdue
  rcases hdue with (⟨_, hpending⟩ | ⟨hretry, time, htime, hle⟩) | ⟨hclaimed, time, htime, hle⟩
  · exact hpending
  · obtain ⟨retryAt, hretryAt, hafter⟩ := h.1 hretry
    rw [htime] at hretryAt
    cases hretryAt
    exact hafter.trans hle
  · obtain ⟨leaseExpiresAt, hexpires, hafter⟩ := h.2.1 hclaimed
    rw [htime] at hexpires
    cases hexpires
    exact hafter.trans hle

theorem Scheduled.turn_le {row : LocationDeleteTaskRow} {clock : Nat} (h : Scheduled row)
    (hdue : locationTaskDue row clock = true) : row.retryAt.getD row.deleteAfter ≤ clock := by
  by_cases hretry : row.state = .retry
  · simp only [locationTaskDue, hretry, Bool.or_eq_true, Bool.and_eq_true, beq_iff_eq, decide_eq_true_eq, Option.any_eq_true,
      reduceCtorEq, false_and, or_false, false_or, true_and] at hdue
    obtain ⟨time, htime, hle⟩ := hdue
    rw [htime]
    exact hle
  · rw [h.2.2 hretry]
    exact h.deleteAfter_le hdue

theorem Scheduled.comes_due {row : LocationDeleteTaskRow} (h : Scheduled row) (hblocked : row.state ≠ .blocked) :
    row.state = .deleted ∨ ∃ time, ∀ clock ≥ time, locationTaskDue row clock = true := by
  cases hstate : row.state with
  | pending => exact .inr ⟨row.deleteAfter, fun clock hclock => by simp [locationTaskDue, hstate, hclock]⟩
  | claimed =>
      obtain ⟨leaseExpiresAt, hexpires, _⟩ := h.2.1 hstate
      exact .inr ⟨leaseExpiresAt, fun clock hclock => by simp [locationTaskDue, hstate, hexpires, hclock]⟩
  | retry =>
      obtain ⟨retryAt, hretryAt, _⟩ := h.1 hstate
      exact .inr ⟨retryAt, fun clock hclock => by simp [locationTaskDue, hstate, hretryAt, hclock]⟩
  | blocked => exact absurd hstate hblocked
  | deleted => exact .inl rfl

/-! ### Why a pass gives a task up -/

/-- The last look of a pass at a location, and what follows. -/
def revalidate (now : Nat) (id : Identity) (fencingToken : Nat) (next : Handler) (db : Database) : Handler :=
  match loadRevalidated db id now with
  | none => failLocation id fencingToken now true next
  | some (task, driver) =>
  match driver.kind.filter DriverKind.controlPlane with
  | none => failLocation id task.fencingToken now true next
  | some kind =>
  .call (.deleteObject (.location id) kind task.driverId task.storageKey task.provider task.sizeBytes) fun answer =>
  match answer with
  | .done =>
      .write (.locationComplete id task.expectedLocationRevision task.fencingToken now) fun completed =>
      match completed with
      | none => .done (.failure "complete VFS location deletion")
      | some committed => if committed then next else failLocation id task.fencingToken now true next
  | .retry => failLocation id task.fencingToken now false next
  | .blocked => failLocation id task.fencingToken now true next

/-- The location a pass turns to, if any. -/
def Database.nextDeletion (db : Database) (clock : Nat) : List Identity :=
  firstByTime 1 (db.lifecycle.locationTasks.entries.filterMap fun row =>
    if locationTaskDue row.2 clock then some (row.2.retryAt.getD row.2.deleteAfter, row.1) else none)

theorem deleteOne_eq (now : Nat) (next : Handler) :
    deleteOne now next = .read fun db =>
      match db.nextDeletion now with
      | [] => next
      | id :: _ =>
      .write (.locationClaim id now) fun claimed =>
      if claimed ≠ some true then next
      else
      .read fun db =>
      match (db.deleteTask id).filter fun task => task.state == .claimed && task.leaseExpiresAt.any (· > now) with
      | none => next
      | some claim => .read (revalidate now id claim.fencingToken next) := rfl

theorem mem_nextDeletion {db : Database} {clock : Nat} {id : Identity} (h : id ∈ db.nextDeletion clock) :
    ∃ row, db.deleteTask id = some row ∧ locationTaskDue row clock = true := by
  obtain ⟨time, hcandidate⟩ := mem_firstByTime h
  obtain ⟨row, hrow, heq⟩ := List.mem_filterMap.mp hcandidate
  split_ifs at heq with hdue
  cases heq
  exact ⟨row.2, Table.mem_entries_iff.mp hrow, hdue⟩

def HoldsClaim (id : Identity) (fencingToken clock : Nat) (db : Database) : Prop :=
  ∃ row, db.deleteTask id = some row ∧ row.state = .claimed ∧ row.fencingToken = fencingToken ∧
    row.leaseExpiresAt.any (· > clock) = true

/-- What a pass that gives a task up has seen, under a clock by which the task was due: a location that failed the look
without a lease on it, a driver out of reach, an object the provider will never delete, or a deletion that could not be
recorded. -/
inductive GivesUp (refuses : Identity → Prop) (id : Identity) (fencingToken clock : Nat) (now : Instant) : Prop where
  | changed {claim look : Instant} (hclaim : HoldsClaim id fencingToken clock claim.state) (hlook : claim.Before look)
      (hnow : look.Before now) (hfailed : loadRevalidated look.state id clock = none)
      (hleases : activeLease look.state id clock = false)
  | unreachable {look : Instant} {task : LocationDeleteTaskRow} {driver : DriverRow} (hnow : look.Before now)
      (hload : loadRevalidated look.state id clock = some (task, driver)) (hfence : task.fencingToken = fencingToken)
      (hkind : driver.kind.filter DriverKind.controlPlane = none)
  | refused {look : Instant} {task : LocationDeleteTaskRow} {driver : DriverRow} (hnow : look.Before now)
      (hload : loadRevalidated look.state id clock = some (task, driver)) (hfence : task.fencingToken = fencingToken)
      (hrefuses : refuses id)
  | unrecorded {look finish : Instant} {task : LocationDeleteTaskRow} {driver : DriverRow} {after : Database}
      (hload : loadRevalidated look.state id clock = some (task, driver)) (hfence : task.fencingToken = fencingToken)
      (hkind : driver.kind.any DriverKind.controlPlane = true) (hfinish : look.Before finish) (hnow : finish.Before now)
      (hunrecorded : executeLocationComplete id task.expectedLocationRevision fencingToken clock finish.state =
        some (after, false))

/-- What the failure of a delete task rests on. -/
def FailOrigin (refuses : Identity → Prop) (id : Identity) (fencingToken : Nat) (retryAt : Option Nat)
    (now : Instant) : Prop :=
  ∃ clock, (ReadBefore now fun db => ∃ row, db.deleteTask id = some row ∧ locationTaskDue row clock = true) ∧
    match retryAt with
    | some retryAt => clock ≤ retryAt
    | none => GivesUp refuses id fencingToken clock now

/-- No pass looks at a location for the last time while a read lease on it is active under the clock of the pass. -/
def LooksWithoutLease (next : Database → Handler) (db : Database) : Prop :=
  ∀ now id fencingToken rest, next = revalidate now id fencingToken rest → activeLease db id now = false

/-- The provider answers that an object can never be deleted only if it refuses it. -/
def RefusesOnly (refuses : Identity → Prop) (effect : Effect) (answer : Answer) : Prop :=
  ∀ id kind driverId storageKey provider sizeBytes,
    effect = .deleteObject (.location id) kind driverId storageKey provider sizeBytes → answer = .blocked → refuses id

section Upholds

variable {prims : Primitives} {refuses : Identity → Prop} {now : Instant}

/-- The handler gives up delete tasks only for a reason, if it looks without leases. -/
def Reasons (prims : Primitives) (refuses : Identity → Prop) (handler : Handler) (now : Instant) : Prop :=
  handler.Upholds execute LooksWithoutLease (RefusesOnly refuses) (OriginUnder (FailOrigin refuses) prims) now

theorem GivesUp.later {id : Identity} {fencingToken clock : Nat} {later : Instant}
    (h : GivesUp refuses id fencingToken clock now) (hlater : now.Before later) :
    GivesUp refuses id fencingToken clock later := by
  cases h with
  | changed hclaim hlook hnow hfailed hleases => exact .changed hclaim hlook (hnow.trans hlater) hfailed hleases
  | unreachable hnow hload hfence hkind => exact .unreachable (hnow.trans hlater) hload hfence hkind
  | refused hnow hload hfence hrefuses => exact .refused (hnow.trans hlater) hload hfence hrefuses
  | unrecorded hload hfence hkind hfinish hnow hunrecorded =>
      exact .unrecorded hload hfence hkind hfinish (hnow.trans hlater) hunrecorded

theorem reasons_read {next : Database → Handler} (h : ∀ later, now.Before later → LooksWithoutLease next later.state →
    Reasons prims refuses (next later.state) later) : Reasons prims refuses (.read next) now := h

theorem reasons_failLocation {id : Identity} {fencingToken clock : Nat} {blocked : Bool} {next : Handler}
    (hdue : ReadBefore now fun db => ∃ row, db.deleteTask id = some row ∧ locationTaskDue row clock = true)
    (hgives : blocked = true → GivesUp refuses id fencingToken clock now)
    (hnext : ∀ later, now.Before later → Reasons prims refuses next later) :
    Reasons prims refuses (failLocation id fencingToken clock blocked next) now := by
  intro later hbefore
  refine ⟨⟨clock, hdue.later hbefore, ?_⟩, hnext later hbefore, ?_⟩
  · cases blocked with
    | false => exact Nat.le_add_right _ _
    | true => exact (hgives rfl).later hbefore
  · intro after reply _
    exact hnext _ (hbefore.advance _ _)

theorem reasons_revalidate {id : Identity} {fencingToken clock : Nat} {next : Handler} {claim : Instant}
    (hdue : ReadBefore now fun db => ∃ row, db.deleteTask id = some row ∧ locationTaskDue row clock = true)
    (hclaim : HoldsClaim id fencingToken clock claim.state) (hbefore : claim.Before now)
    (hleases : activeLease now.state id clock = false)
    (hnext : ∀ later, now.Before later → Reasons prims refuses next later) :
    Reasons prims refuses (revalidate clock id fencingToken next now.state) now := by
  unfold revalidate
  cases hload : loadRevalidated now.state id clock with
  | none => exact reasons_failLocation hdue (fun _ => .changed hclaim hbefore (.refl _) hload hleases) hnext
  | some found =>
      obtain ⟨task, driver⟩ := found
      cases hkind : driver.kind.filter DriverKind.controlPlane with
      | none =>
          dsimp only
          rw [hkind]
          exact reasons_failLocation hdue (fun _ => .unreachable (.refl _) hload rfl hkind) hnext
      | some kind =>
          dsimp only
          rw [hkind]
          have hreached : driver.kind.any DriverKind.controlPlane = true := by
            obtain ⟨hsome, hcontrol⟩ := Option.filter_eq_some_iff.mp hkind
            rw [hsome, Option.any_some, hcontrol]
          intro asked hasked answer hanswer
          have hcontinue : ∀ later, asked.Before later → Reasons prims refuses next later := fun later hlater =>
            hnext later (hasked.trans hlater)
          cases answer with
          | retry => exact reasons_failLocation (hdue.later hasked) (fun hblocked => by cases hblocked) hcontinue
          | blocked =>
              refine reasons_failLocation (hdue.later hasked) (fun _ => ?_) hcontinue
              exact .refused hasked hload rfl (hanswer _ _ _ _ _ _ rfl rfl)
          | done =>
              intro finish hfinish
              refine ⟨trivial, trivial, ?_⟩
              intro after reply hexecute
              have hadvance := hfinish.advance (some (.locationComplete id task.expectedLocationRevision
                task.fencingToken clock)) after
              cases reply with
              | true => exact hcontinue _ hadvance
              | false =>
                  refine reasons_failLocation (hdue.later (hasked.trans hadvance)) (fun _ => ?_)
                    fun later hlater => hcontinue later (hadvance.trans hlater)
                  exact .unrecorded hload rfl hreached (hasked.trans hfinish) ((Moment.Before.refl _).advance _ _)
                    hexecute

theorem reasons_deleteOne {clock : Nat} {next : Handler} (hnext : ∀ later, now.Before later → Reasons prims refuses next later) :
    Reasons prims refuses (deleteOne clock next) now := by
  rw [deleteOne_eq]
  apply reasons_read
  intro first hfirst _
  split
  · exact hnext first hfirst
  rename_i id _ hcandidates
  obtain ⟨row, hrow, hdue⟩ := mem_nextDeletion (hcandidates ▸ List.mem_cons_self)
  have hseen : ReadBefore first fun db => ∃ row, db.deleteTask id = some row ∧ locationTaskDue row clock = true :=
    ⟨first, .refl _, row, hrow, hdue⟩
  -- whether or not the claim is reported, what follows it is the same read
  have hrest : ∀ second, first.Before second → Reasons prims refuses (.read fun db =>
      match (db.deleteTask id).filter fun task => task.state == .claimed && task.leaseExpiresAt.any (· > clock) with
      | none => next
      | some claim => .read (revalidate clock id claim.fencingToken next)) second := by
    intro second hsecond
    apply reasons_read
    intro third hthird _
    have hbefore := (hfirst.trans hsecond).trans hthird
    cases hclaim : (third.state.deleteTask id).filter fun task =>
        task.state == .claimed && task.leaseExpiresAt.any (· > clock) with
    | none => exact hnext third hbefore
    | some claim =>
        obtain ⟨htask, hvalid⟩ := Option.filter_eq_some_iff.mp hclaim
        rw [Bool.and_eq_true, beq_iff_eq] at hvalid
        intro fourth hfourth hsees
        exact reasons_revalidate (hseen.later ((hsecond.trans hthird).trans hfourth)) ⟨claim, htask, hvalid.1, rfl, hvalid.2⟩
          hfourth (hsees _ _ _ _ rfl) fun later hlater => hnext later ((hbefore.trans hfourth).trans hlater)
  intro second hsecond
  refine ⟨trivial, hnext second (hfirst.trans hsecond), ?_⟩
  intro after reply _
  have hadvance := hsecond.advance (some (.locationClaim id clock)) after
  cases reply with
  | false => exact hnext _ (hfirst.trans hadvance)
  | true => exact hrest _ hadvance

/-- Every handler of the control plane gives up delete tasks only for a reason. -/
theorem reasons_serve (request : Request) : Reasons prims refuses (serve prims request) now := by
  cases request with
  | client verifierSha256 operation =>
      have hkeeps : Keeps (FailOrigin refuses) prims (serve prims (.client verifierSha256 operation)) now := by
        apply keeps_read
        intro first _
        cases first.state.authenticate verifierSha256 with
        | none => exact keeps_reject _ _
        | some token => exact keeps_handle prims token operation
      exact hkeeps.upholds
  | maintenance =>
      intro start _ _
      have hlifecycle : ∀ later, Reasons prims refuses (runLifecycle start.state.now) later := by
        intro later marked hmarked
        have hcreate : ∀ moment, Reasons prims refuses (.write .createTasks fun _ => deleteOne start.state.now <|
            deleteOneAbandonedPut start.state.now <| cleanupOneUpload start.state.now <| .done (.ok .completed)) moment := by
          intro moment created hcreated
          have hdelete : ∀ moment, Reasons prims refuses (deleteOne start.state.now <|
              deleteOneAbandonedPut start.state.now <| cleanupOneUpload start.state.now <| .done (.ok .completed)) moment := by
            intro moment
            apply reasons_deleteOne
            intro last _
            have hkeeps : Keeps (FailOrigin refuses) prims (deleteOneAbandonedPut start.state.now <|
                cleanupOneUpload start.state.now <| .done (.ok .completed)) last := by
              apply keeps_deleteOneAbandonedPut
              intro later _
              apply keeps_cleanupOneUpload
              intro final _
              exact keeps_any _
            exact hkeeps.upholds
          exact ⟨trivial, hdelete _, fun _ _ _ => hdelete _⟩
        exact ⟨trivial, hcreate _, fun _ _ _ => hcreate _⟩
      intro second hsecond
      have hprune : ∀ moment, Reasons prims refuses (.write (.uploadPrune start.state.now) fun _ =>
          runLifecycle start.state.now) moment := by
        intro moment third hthird
        exact ⟨trivial, hlifecycle _, fun _ _ _ => hlifecycle _⟩
      exact ⟨⟨start, hsecond, rfl⟩, hprune _, fun _ _ _ => hprune _⟩

end Upholds

/-! ### The last look -/

section Looks

variable {db : Database} {id : Identity} {clock : Nat} {row : LocationDeleteTaskRow}

theorem unobstructed_eq_true (hrow : db.deleteTask id = some row) (h : db.unobstructed id = true) :
    ∃ location driver, db.objects.locations.lookup id = some location ∧
      db.surroundings.drivers.lookup row.driverId = some driver ∧ location.state = .tombstoned ∧
      location.revision = row.expectedLocationRevision ∧ location.driverId = row.driverId ∧
      location.storageKey = row.storageKey ∧ location.provider = row.provider ∧ location.sizeBytes = row.sizeBytes ∧
      driver.enabled = true ∧ driver.revision = row.driverRevision ∧ driver.kind.any DriverKind.controlPlane = true := by
  unfold Database.unobstructed at h
  rw [hrow] at h
  cases hlocation : db.objects.locations.lookup id with
  | none =>
      rw [hlocation] at h
      cases h
  | some location =>
      simp only [hlocation, Bool.and_eq_true, beq_iff_eq, Option.any_eq_true] at h
      obtain ⟨⟨⟨⟨⟨⟨hstate, hrevision⟩, hdriver⟩, hkey⟩, hprovider⟩, hsize⟩, driver, hfound, hvalid⟩ := h
      exact ⟨location, driver, rfl, hfound, hstate, hrevision, hdriver, hkey, hprovider, hsize, hvalid.1.1, hvalid.1.2,
        (Option.any_eq_true _ _).mpr hvalid.2⟩

theorem loadRevalidated_of_unobstructed (hrow : db.deleteTask id = some row) (hclaimed : row.state = .claimed)
    (hlease : row.leaseExpiresAt.any (· > clock) = true) (hafter : row.deleteAfter ≤ clock)
    (hleases : activeLease db id clock = false) (h : db.unobstructed id = true) :
    ∃ driver, loadRevalidated db id clock = some (row, driver) ∧ driver.kind.any DriverKind.controlPlane = true := by
  obtain ⟨location, driver, hlocation, hdriver, hstate, hrevision, hsame, hkey, hprovider, hsize, henabled, hdriverRevision,
    hkind⟩ := unobstructed_eq_true hrow h
  refine ⟨driver, ?_, hkind⟩
  simp only [loadRevalidated, Option.bind_eq_bind, Option.bind_eq_some_iff, require_eq_some]
  refine ⟨row, hrow, location, hlocation, driver, hdriver, (), ?_, rfl⟩
  simp [hclaimed, hlease, hstate, hrevision, hsame, hkey, hprovider, hsize, hafter, henabled, hdriverRevision, hleases]

theorem loadRevalidated_task {task : LocationDeleteTaskRow} {driver : DriverRow}
    (h : loadRevalidated db id clock = some (task, driver)) :
    db.deleteTask id = some task ∧ task.state = .claimed ∧ task.leaseExpiresAt.any (· > clock) = true ∧
      db.surroundings.drivers.lookup task.driverId = some driver := by
  simp only [loadRevalidated, Option.bind_eq_bind, Option.bind_eq_some_iff, require_eq_some, Bool.and_eq_true,
    beq_iff_eq] at h
  obtain ⟨found, hfound, _, _, other, hother, _, hvalid, heq⟩ := h
  cases heq
  exact ⟨hfound, hvalid.1.1.1.1.1.1.1.1.1.1.1, hvalid.1.1.1.1.1.1.1.1.1.1.2, hother⟩

theorem executeLocationComplete_of_unobstructed (hrow : db.deleteTask id = some row) (hclaimed : row.state = .claimed)
    (hlease : row.leaseExpiresAt.any (· > clock) = true) (hleases : activeLease db id clock = false)
    (h : db.unobstructed id = true) :
    ∃ after, executeLocationComplete id row.expectedLocationRevision row.fencingToken clock db = some (after, true) ∧
      after.deleteTask id = some { row with state := .deleted, leaseExpiresAt := none } ∧
      (after.objects.locations.lookup id).map LocationRow.state = some .deleted := by
  obtain ⟨location, _, hlocation, _, hstate, hrevision, _⟩ := unobstructed_eq_true hrow h
  have hdeletes : location.state = .tombstoned ∧ location.revision = row.expectedLocationRevision ∧ row.state = .claimed ∧
      row.fencingToken = row.fencingToken ∧ row.leaseExpiresAt.any (· > clock) ∧
      row.expectedLocationRevision = row.expectedLocationRevision ∧ activeLease db id clock = false :=
    ⟨hstate, hrevision, hclaimed, rfl, hlease, rfl, hleases⟩
  have hfinished : row.state = .claimed ∧ row.fencingToken = row.fencingToken ∧
      ((db.objects.locations.insert id { location with state := .deleted, revision := location.revision + 1 }).lookup id).any
        fun found => found.state == .deleted && found.revision == row.expectedLocationRevision + 1 := by
    refine ⟨hclaimed, rfl, ?_⟩
    rw [Table.lookup_insert_eq, if_pos rfl, Option.any_some]
    simp [hrevision]
  unfold executeLocationComplete
  rw [show db.lifecycle.locationTasks.lookup id = some row from hrow, hlocation]
  dsimp only
  rw [if_pos hdeletes, if_pos hfinished, decide_eq_true hdeletes, decide_eq_true hfinished]
  refine ⟨_, rfl, ?_, ?_⟩
  · rw [Database.deleteTask, Table.lookup_insert_eq, if_pos rfl]
  · rw [Table.lookup_insert_eq, if_pos rfl, Option.map_some]

end Looks

/-! ### Along a run -/

/-- Since the task was last claimed, a pass found more than a lease in the way of deleting the object. -/
def BlockedBy (refuses : Identity → Prop) (id : Identity) (fencingToken : Nat) (now : Instant) : Prop :=
  ∃ claim look : Instant, claim.Before look ∧ look.Before now ∧
    (∃ row, claim.state.deleteTask id = some row ∧ row.state = .claimed ∧ row.fencingToken = fencingToken) ∧
    (refuses id ∨ look.state.unobstructed id = false)

/-- What holds of a delete task along a run. -/
structure TaskSound (refuses : Identity → Prop) (id : Identity) (now : Instant) : Prop where
  related : now.Related (LaterTasks id)
  timely : ∀ past : Instant, past.Before now → ∀ row, past.state.deleteTask id = some row → Scheduled row
  blocked : ∀ row, now.state.deleteTask id = some row → row.state = .blocked → BlockedBy refuses id row.fencingToken now

section Runs

variable {prims : Primitives} {refuses : Identity → Prop} {id : Identity} {now : Instant}

/-- A row that is claimed now was the same at every moment since it was claimed under its fence. -/
theorem TaskSound.claimed_between (h : TaskSound refuses id now) {first second : Instant} (hfirst : first.Before second)
    (hsecond : second.Before now) {row old : LocationDeleteTaskRow} (hrow : now.state.deleteTask id = some row)
    (hclaimed : row.state = .claimed) (hold : first.state.deleteTask id = some old)
    (hfence : old.fencingToken = row.fencingToken) : old = row ∧ second.state.deleteTask id = some row := by
  obtain ⟨new, hnew, hkept⟩ := (h.related first now (hfirst.trans hsecond) (.refl now)).task hold
  rw [hrow] at hnew
  cases hnew
  obtain ⟨middle, hmiddle, hlow⟩ := (h.related first second hfirst hsecond).task hold
  obtain ⟨new, hnew, hhigh⟩ := (h.related second now hsecond (.refl now)).task hmiddle
  rw [hrow] at hnew
  cases hnew
  have hbelow := hlow.fence
  have habove := hhigh.fence
  refine ⟨(hkept.claimed hfence.symm hclaimed).symm, ?_⟩
  rw [hmiddle, hhigh.claimed (by omega) hclaimed]

theorem TaskSound.deleteAfter_le (h : TaskSound refuses id now) {row : LocationDeleteTaskRow}
    (hrow : now.state.deleteTask id = some row) {clock : Nat}
    (hdue : ReadBefore now fun db => ∃ row, db.deleteTask id = some row ∧ locationTaskDue row clock = true) :
    row.deleteAfter ≤ clock := by
  obtain ⟨past, hpast, old, hold, hdue⟩ := hdue
  obtain ⟨new, hnew, hkept⟩ := (h.related past now hpast (.refl now)).task hold
  rw [hrow] at hnew
  cases hnew
  rw [hkept.deleteAfter]
  exact (h.timely past hpast old hold).deleteAfter_le hdue

/-- Whoever gives up a task under its current claim found more than a lease in the way. -/
theorem GivesUp.blockedBy (hsound : TaskSound refuses id now) {row : LocationDeleteTaskRow}
    (hrow : now.state.deleteTask id = some row) (hclaimed : row.state = .claimed) {clock : Nat}
    (hdue : ReadBefore now fun db => ∃ row, db.deleteTask id = some row ∧ locationTaskDue row clock = true)
    (h : GivesUp refuses id row.fencingToken clock now) : BlockedBy refuses id row.fencingToken now := by
  have hafter := hsound.deleteAfter_le hrow hdue
  cases h with
  | @changed claim look hclaim hlook hnow hfailed hleases =>
      obtain ⟨old, hold, _, hfence, hlease⟩ := hclaim
      obtain ⟨rfl, hthere⟩ := hsound.claimed_between hlook hnow hrow hclaimed hold hfence
      refine ⟨claim, look, hlook, hnow, ⟨old, hold, hclaimed, rfl⟩, .inr ?_⟩
      rw [Bool.eq_false_iff]
      intro hfree
      obtain ⟨driver, hload, _⟩ := loadRevalidated_of_unobstructed hthere hclaimed hlease hafter hleases hfree
      rw [hfailed] at hload
      cases hload
  | @unreachable look task driver hnow hload hfence hkind =>
      obtain ⟨htask, htaken, _, hdriver⟩ := loadRevalidated_task hload
      refine ⟨look, look, .refl look, hnow, ⟨task, htask, htaken, hfence⟩, .inr ?_⟩
      rw [Bool.eq_false_iff]
      intro hfree
      obtain ⟨_, found, _, hfound, _, _, _, _, _, _, _, _, hreached⟩ := unobstructed_eq_true htask hfree
      rw [hdriver] at hfound
      cases hfound
      obtain ⟨kind, hsome, hcontrol⟩ := (Option.any_eq_true _ _).mp hreached
      rw [hsome, Option.filter_some, if_pos hcontrol] at hkind
      cases hkind
  | @refused look task driver hnow hload hfence hrefuses =>
      obtain ⟨htask, htaken, _⟩ := loadRevalidated_task hload
      exact ⟨look, look, .refl look, hnow, ⟨task, htask, htaken, hfence⟩, .inl hrefuses⟩
  | @unrecorded look finish task driver after hload hfence _ hfinish hnow hunrecorded =>
      obtain ⟨htask, _, hlease, _⟩ := loadRevalidated_task hload
      obtain ⟨rfl, hthere⟩ := hsound.claimed_between hfinish hnow hrow hclaimed htask hfence
      refine ⟨look, finish, hfinish, hnow, ⟨task, htask, hclaimed, rfl⟩, .inr ?_⟩
      rw [Bool.eq_false_iff]
      intro hfree
      -- the leases at the end are those of the look, which had ended under this clock
      obtain ⟨⟨location, hlocation, htombstoned⟩, hended⟩ := loadRevalidated_eq_some hload
      have hleases : activeLease finish.state id clock = false := by
        rw [activeLease, Table.any_eq_false]
        intro leaseId lease hfound
        by_contra hactive
        simp only [Bool.not_eq_false, Bool.and_eq_true, beq_iff_eq, Option.isNone_iff_eq_none, decide_eq_true_eq] at hactive
        obtain ⟨⟨hid, hopen⟩, hlater⟩ := hactive
        obtain ⟨old, hold, hbecomes⟩ := (hsound.related look finish hfinish hnow).closed.leases id location hlocation
          (by simp [htombstoned]) leaseId lease hfound hid
        rcases hbecomes with rfl | ⟨time, rfl⟩
        · have := hended leaseId lease hold hid hopen
          omega
        · cases hopen
      obtain ⟨_, hcomplete, _⟩ := executeLocationComplete_of_unobstructed hthere hclaimed hlease hleases hfree
      rw [hunrecorded] at hcomplete
      cases hcomplete

theorem BlockedBy.later {fencingToken : Nat} {later : Instant} (h : BlockedBy refuses id fencingToken now)
    (hlater : now.Before later) : BlockedBy refuses id fencingToken later := by
  obtain ⟨claim, look, hlook, hnow, hclaim, hobstacle⟩ := h
  exact ⟨claim, look, hlook, hnow.trans hlater, hclaim, hobstacle⟩

/-- What holds of the task still holds after a step that keeps it, if the new row is timely and blocked for a reason. -/
theorem TaskSound.advance {cause : Option Mutation} {after : Database} (h : TaskSound refuses id now)
    (hlater : LaterTasks id now.state after) (htimely : ∀ row, after.deleteTask id = some row → Scheduled row)
    (hblocked : ∀ row, after.deleteTask id = some row → row.state = .blocked → BlockedBy refuses id row.fencingToken now) :
    TaskSound refuses id (now.advance cause after) where
  related := h.related.advance (LaterTasks.refl id) LaterTasks.trans hlater
  timely := by
    intro past hpast row hrow
    rcases Moment.before_advance_iff.mp hpast with rfl | hbefore
    · exact htimely row hrow
    · exact h.timely past hbefore row hrow
  blocked := by
    intro row hrow hstate
    exact (hblocked row hrow hstate).later ((Moment.Before.refl now).advance cause after)

theorem TaskSound.commit {mutation : Mutation} {after : Database} {reply : Bool} (h : TaskSound refuses id now)
    (horigin : OriginUnder (FailOrigin refuses) prims mutation now)
    (hexecute : execute mutation now.state = some (after, reply)) :
    TaskSound refuses id (now.advance (some mutation) after) := by
  have hstep := taskStep_of_execute hexecute id
  refine h.advance (laterTasks_of_execute hexecute) ?_ ?_
  · intro row hrow
    rw [hrow] at hstep
    generalize hold : now.state.deleteTask id = old at hstep
    cases hstep with
    | same _ => exact h.timely now (.refl now) row hold
    | opened hopens =>
        exact ⟨fun hretry => by simp [hopens.pending] at hretry, fun hclaimed => by simp [hopens.pending] at hclaimed,
          fun _ => hopens.retryAt⟩
    | @claimed task clock hdue =>
        have hafter := (h.timely now (.refl now) task hold).deleteAfter_le hdue
        exact ⟨nofun, fun _ => ⟨_, rfl, hafter.trans (Nat.le_add_right _ _)⟩, fun _ => rfl⟩
    | @failed task retryAt _ =>
        obtain ⟨clock, hdue, hreason⟩ := horigin
        have hafter := h.deleteAfter_le hold hdue
        cases retryAt with
        | none => exact ⟨nofun, nofun, fun _ => rfl⟩
        | some time => exact ⟨fun _ => ⟨time, rfl, hafter.trans hreason⟩, nofun, fun hother => absurd rfl hother⟩
    | @deleted _ task hclaimed =>
        exact ⟨nofun, nofun, fun _ => (h.timely now (.refl now) task hold).2.2 (by simp [hclaimed])⟩
  · intro row hrow hblocked
    rw [hrow] at hstep
    generalize hold : now.state.deleteTask id = old at hstep
    cases hstep with
    | same _ => exact h.blocked row hold hblocked
    | opened hopens =>
        rw [hopens.pending] at hblocked
        cases hblocked
    | claimed _ => cases hblocked
    | @failed task retryAt hclaimed =>
        obtain ⟨clock, hdue, hreason⟩ := horigin
        cases retryAt with
        | none =>
            have hfound := hreason.blockedBy h hold hclaimed hdue
            exact hfound
        | some time => cases hblocked
    | deleted _ => cases hblocked

end Runs

/-- In a run whose passes look at locations only without leases, what holds of a delete task holds at the end. -/
theorem taskSound_of_runs {prims : Primitives} {permit : Moment Database Mutation → Mutation → Prop}
    {refuses : Identity → Prop} {start : Database} {system : ControlState} (hstart : Bootstrapped prims start)
    (hrun : (controlPlane prims).ObservedRuns permit LooksWithoutLease (RefusesOnly refuses) (Machine.initial start) system)
    (id : Identity) : TaskSound refuses id system.toMoment := by
  have hstarts : ∀ program, (controlPlane prims).starts program → ∀ moment,
      program.Upholds (controlPlane prims).execute LooksWithoutLease (RefusesOnly refuses)
        (OriginUnder (FailOrigin refuses) prims) moment := by
    rintro program ⟨request, rfl⟩ moment
    exact reasons_serve request
  refine Machine.upheld_invariant hstarts ?_ ?_ ?_ hrun
  · intro moment after hsound hdrift
    have hsame : after.deleteTask id = moment.state.deleteTask id := by
      obtain ⟨_, _, _, rfl⟩ := hdrift
      rfl
    apply hsound.advance (laterTasks_of_drift hdrift)
    · exact fun row hrow => hsound.timely moment (.refl moment) row (hsame ▸ hrow)
    · exact fun row hrow => hsound.blocked row (hsame ▸ hrow)
  · intro moment mutation after reply hsound horigin hexecute
    exact hsound.commit horigin hexecute
  · have hnone : start.deleteTask id = none := by
      rw [Database.deleteTask, hstart.lifecycle]
      rfl
    constructor
    · intro first second hfirst hsecond
      rw [Moment.before_start_iff.mp hsecond] at hfirst ⊢
      rw [Moment.before_start_iff.mp hfirst]
      exact .refl id start
    · intro past hpast row hrow
      rw [Moment.before_start_iff.mp hpast, hnone] at hrow
      cases hrow
    · intro row hrow
      rw [hnone] at hrow
      cases hrow

end Skydriver
