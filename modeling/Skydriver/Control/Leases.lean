import Skydriver.Control.Uploads

/-!
# Direct reads and the deletion of what they read

A lease is granted on an available location only, and a location that was tombstoned never becomes available again.  So
the leases a lifecycle pass sees when it revalidates a location are all that will ever be granted on it, and each of
them has ended by the time the pass started with.  A clock that runs backwards would break the last step.
-/

namespace Skydriver

/-! ### Leases over time -/

/-- A lease may be completed, once or more, and nothing else changes. -/
def ReadLeaseRow.Becomes (old new : ReadLeaseRow) : Prop :=
  new = old ∨ ∃ time, new = { old with completedAt := some time }

theorem ReadLeaseRow.Becomes.trans {first second third : ReadLeaseRow} (h : first.Becomes second)
    (h' : second.Becomes third) : first.Becomes third := by
  rcases h' with rfl | ⟨time, rfl⟩
  · exact h
  · rcases h with rfl | ⟨_, rfl⟩
    · exact .inr ⟨time, rfl⟩
    · exact .inr ⟨time, rfl⟩

theorem completeLease_lookup (tokenId : Identity) (now : Nat) (leases : Table Identity ReadLeaseRow)
    (leaseId id : Identity) :
    ∃ change : ReadLeaseRow → ReadLeaseRow, (∀ row : ReadLeaseRow, row.Becomes (change row)) ∧
      (completeLease tokenId now leases leaseId).lookup id = (leases.lookup id).map change := by
  rw [completeLease, Table.lookup_modify]
  by_cases hid : id = leaseId
  · rw [if_pos hid]
    refine ⟨_, ?_, rfl⟩
    intro row
    split_ifs
    · exact .inr ⟨_, rfl⟩
    · exact .inl rfl
  · rw [if_neg hid]
    exact ⟨fun row => row, fun row => .inl rfl, by simp⟩

theorem foldl_completeLease_lookup (tokenId : Identity) (now : Nat) (leaseIds : List Identity)
    (leases : Table Identity ReadLeaseRow) (id : Identity) :
    ∃ change : ReadLeaseRow → ReadLeaseRow, (∀ row : ReadLeaseRow, row.Becomes (change row)) ∧
      (leaseIds.foldl (completeLease tokenId now) leases).lookup id = (leases.lookup id).map change := by
  induction leaseIds generalizing leases with
  | nil => exact ⟨fun row => row, fun row => .inl rfl, by simp⟩
  | cons leaseId leaseIds ih =>
      obtain ⟨first, hfirst, hlookup⟩ := completeLease_lookup tokenId now leases leaseId id
      obtain ⟨rest, hrest, hlookup'⟩ := ih (completeLease tokenId now leases leaseId)
      refine ⟨rest ∘ first, fun row => (hfirst row).trans (hrest _), ?_⟩
      rw [List.foldl_cons, hlookup', hlookup, Option.map_map]

theorem foldl_erase_lookup {α : Type} (ids : List Identity) (table : Table Identity α) (id : Identity) :
    (ids.foldl (fun table found => table.erase found) table).lookup id =
      if id ∈ ids then none else table.lookup id := by
  induction ids generalizing table with
  | nil => simp
  | cons first ids ih =>
      rw [List.foldl_cons, ih, Table.lookup_erase_eq]
      by_cases hfirst : id = first
      · simp [hfirst]
      · simp [hfirst]

theorem executeMaintenance_readLeases {now : Nat} {db after : Database} (h : executeMaintenance now db = some after)
    (id : Identity) :
    after.lifecycle.readLeases.lookup id = db.lifecycle.readLeases.lookup id ∨
      (after.lifecycle.readLeases.lookup id = none ∧ ∃ lease, db.lifecycle.readLeases.lookup id = some lease ∧
        lease.completedAt.getD lease.expiresAt ≤ now) := by
  rw [executeMaintenance, Option.some.injEq] at h
  subst h
  simp only [foldl_erase_lookup]
  split_ifs with hended
  · refine .inr ⟨rfl, ?_⟩
    obtain ⟨time, hcandidate⟩ := mem_firstByTime hended
    obtain ⟨row, hrow, heq⟩ := List.mem_filterMap.mp hcandidate
    split_ifs at heq with hpast
    cases heq
    exact ⟨row.2, Table.mem_entries_iff.mp hrow, hpast.trans (Nat.sub_le _ _)⟩
  · exact .inl rfl

/-- What a batch did to the leases. -/
inductive LeaseChange (db after : Database) : Mutation → Prop where
  | same {mutation : Mutation} (h : after.lifecycle.readLeases = db.lifecycle.readLeases) : LeaseChange db after mutation
  | pruned {now : Nat} (h : executeMaintenance now db = some after) : LeaseChange db after (.maintenance now)
  | granted {grant : LeaseGrant} {location : LocationRow}
      (hlocation : db.objects.locations.lookup grant.locationId = some location)
      (havailable : location.state = .available) (hfresh : db.lifecycle.readLeases.lookup grant.leaseId = none)
      (h : after.lifecycle.readLeases = db.lifecycle.readLeases.insert grant.leaseId
        ⟨grant.versionId, grant.locationId, grant.tokenId, grant.expiresAt, grant.now, none⟩) :
      LeaseChange db after (.leaseGrant grant)
  | completed {tokenId : Identity} {leaseIds : List Identity} {now : Nat}
      (h : after.lifecycle.readLeases = leaseIds.foldl (completeLease tokenId now) db.lifecycle.readLeases) :
      LeaseChange db after (.leaseComplete tokenId leaseIds now)

theorem Committed.leaseChange {db after : Database} {mutation : Mutation} (h : Committed db after mutation) :
    LeaseChange db after mutation := by
  cases h with
  | putCommit h => exact .same (by rw [h.lifecycle]; rfl)
  | mkdir h => exact .same (by rw [h.lifecycle])
  | remove h => exact .same (by rw [h.lifecycle]; rfl)
  | rename h => exact .same (by rw [h.lifecycle])
  | putPrepare h =>
      rcases executePutPrepare_eq_some h with rfl | ⟨rfl, _⟩
      · exact .same rfl
      · exact .same rfl
  | evidence h =>
      obtain ⟨_, rfl⟩ := executeEvidence_eq_some h
      exact .same rfl
  | tokenIssue h =>
      obtain ⟨_, _, _, rfl⟩ := executeTokenIssue_eq_some h
      exact .same rfl
  | tokenRevoke h =>
      obtain ⟨_, _, _, _, rfl⟩ := executeTokenRevoke_eq_some h
      exact .same rfl
  | aclReplace h =>
      obtain ⟨_, _, _, _, rfl⟩ := executeAclReplace_eq_some h
      exact .same rfl
  | placementReplace h =>
      obtain ⟨_, _, _, _, _, rfl⟩ := executePlacementReplace_eq_some h
      exact .same rfl
  | maintenance h => exact .pruned h
  | markUnreachable h =>
      obtain ⟨_, _, rfl, _⟩ := executeMarkUnreachable_eq_some h
      exact .same rfl
  | locationComplete h =>
      obtain ⟨_, _, rfl, _⟩ := executeLocationComplete_eq_some h
      exact .same rfl
  | task lifecycle _ hchange h =>
      subst h
      cases hchange with
      | unchanged => exact .same rfl
      | locationTasks => exact .same rfl
      | putTask => exact .same rfl
      | uploadTasks => exact .same rfl
      | leaseGrant hlocation havailable hfresh => exact .granted hlocation havailable hfresh rfl
      | leaseComplete => exact .completed rfl

/-- A lease survives a batch, perhaps completed, unless maintenance forgets it after its end. -/
theorem Committed.lease_persists {db after : Database} {mutation : Mutation} (h : Committed db after mutation)
    {id : Identity} {lease : ReadLeaseRow} (hlease : db.lifecycle.readLeases.lookup id = some lease) :
    (∃ new, after.lifecycle.readLeases.lookup id = some new ∧ lease.Becomes new) ∨
      ∃ now, mutation = .maintenance now ∧ lease.completedAt.getD lease.expiresAt ≤ now := by
  cases h.leaseChange with
  | same hleases => exact .inl ⟨lease, by rw [hleases, hlease], .inl rfl⟩
  | @pruned now hprune =>
      rcases executeMaintenance_readLeases hprune id with hsame | ⟨_, found, hfound, hended⟩
      · exact .inl ⟨lease, by rw [hsame, hlease], .inl rfl⟩
      · rw [hlease] at hfound
        cases hfound
        exact .inr ⟨now, rfl, hended⟩
  | @granted grant _ _ _ hfresh hleases =>
      have hid : id ≠ grant.leaseId := by
        intro hid
        rw [hid, hfresh] at hlease
        cases hlease
      exact .inl ⟨lease, by rw [hleases, Table.lookup_insert_eq, if_neg hid, hlease], .inl rfl⟩
  | completed hleases =>
      obtain ⟨change, hchange, hlookup⟩ := foldl_completeLease_lookup _ _ _ db.lifecycle.readLeases id
      exact .inl ⟨change lease, by rw [hleases, hlookup, hlease, Option.map_some], hchange lease⟩

/-- A lease after a batch was there before, unless it was just granted, on a location then available. -/
theorem Committed.lease_origin {db after : Database} {mutation : Mutation} (h : Committed db after mutation)
    {id : Identity} {new : ReadLeaseRow} (hnew : after.lifecycle.readLeases.lookup id = some new) :
    (∃ old, db.lifecycle.readLeases.lookup id = some old ∧ old.Becomes new) ∨
      ∃ location, db.objects.locations.lookup new.locationId = some location ∧ location.state = .available := by
  cases h.leaseChange with
  | same hleases => exact .inl ⟨new, by rw [← hleases, hnew], .inl rfl⟩
  | pruned hprune =>
      rcases executeMaintenance_readLeases hprune id with hsame | ⟨hnone, _⟩
      · exact .inl ⟨new, by rw [← hsame, hnew], .inl rfl⟩
      · rw [hnew] at hnone
        cases hnone
  | granted hlocation havailable hfresh hleases =>
      rw [hleases, Table.lookup_insert_eq] at hnew
      split_ifs at hnew with hid
      · cases hnew
        exact .inr ⟨_, hlocation, havailable⟩
      · exact .inl ⟨new, hnew, .inl rfl⟩
  | completed hleases =>
      obtain ⟨change, hchange, hlookup⟩ := foldl_completeLease_lookup _ _ _ db.lifecycle.readLeases id
      rw [hleases, hlookup, Option.map_eq_some_iff] at hnew
      obtain ⟨old, hold, rfl⟩ := hnew
      exact .inl ⟨old, hold, hchange old⟩

/-! ### Leases along a run -/

/-- The clock never ran backwards on the way to `now`. -/
def ClockMonotone (now : Instant) : Prop :=
  ∀ earlier later : Instant, earlier.Before later → later.Before now → earlier.state.now ≤ later.state.now

theorem clockMonotone_of_pairwise {now : Instant}
    (h : (now.trace.map (fun step => step.2.now) ++ [now.state.now]).Pairwise (· ≤ ·)) : ClockMonotone now := by
  intro earlier later hearlier hlater
  induction hlater with
  | refl =>
      rcases hearlier.state_mem with heq | ⟨step, hmem, heq⟩
      · exact (congrArg Database.now heq).le
      · rw [List.pairwise_append] at h
        exact heq ▸ h.2.2 _ (List.mem_map_of_mem hmem) _ (List.mem_singleton_self _)
  | advance cause after hpast ih =>
      apply ih
      rw [Moment.advance, List.map_append] at h
      exact (List.pairwise_append.mp h).1

/-- The lease seen at `past` was completed on the way to `now`. -/
def LeaseCompleted (id : Identity) (lease : ReadLeaseRow) (past now : Instant) : Prop :=
  ∃ done time, past.Before done ∧ done.Before now ∧
    done.state.lifecycle.readLeases.lookup id = some { lease with completedAt := some time }

theorem LeaseCompleted.later {id : Identity} {lease : ReadLeaseRow} {past now later : Instant}
    (h : LeaseCompleted id lease past now) (hlater : now.Before later) : LeaseCompleted id lease past later := by
  obtain ⟨done, time, hpast, hdone, hlookup⟩ := h
  exact ⟨done, time, hpast, hdone.trans hlater, hlookup⟩

/-- Every lease ever seen is still there, or was completed, or expired under a clock read since. -/
def LeasesTracked (now : Instant) : Prop :=
  ∀ past : Instant, past.Before now → ∀ id lease, past.state.lifecycle.readLeases.lookup id = some lease →
    now.state.lifecycle.readLeases.lookup id = some lease ∨ LeaseCompleted id lease past now ∨
      ReadBefore now fun db => lease.expiresAt ≤ db.now

/-- A step that keeps a lease, completes it, or forgets it after its end keeps track of every lease. -/
theorem LeasesTracked.advance {now : Instant} {cause : Option Mutation} {after : Database} (h : LeasesTracked now)
    (hstep : ∀ id lease, now.state.lifecycle.readLeases.lookup id = some lease →
      (∃ new, after.lifecycle.readLeases.lookup id = some new ∧ lease.Becomes new) ∨
        ReadBefore now fun db => lease.completedAt.getD lease.expiresAt ≤ db.now) :
    LeasesTracked (now.advance cause after) := by
  intro past hpast id lease hlease
  have hadvance : now.Before (now.advance cause after) := (Moment.Before.refl now).advance cause after
  rcases Moment.before_advance_iff.mp hpast with rfl | hbefore
  · exact .inl hlease
  rcases h past hbefore id lease hlease with hsame | hcompleted | hexpired
  · rcases hstep id lease hsame with ⟨new, hnew, rfl | ⟨time, rfl⟩⟩ | hended
    · exact .inl hnew
    · exact .inr (.inl ⟨_, time, hpast, .refl _, hnew⟩)
    · cases hcompletion : lease.completedAt with
      | none =>
          rw [hcompletion] at hended
          exact .inr (.inr (hended.later hadvance))
      | some time =>
          refine .inr (.inl ⟨now, time, hbefore, hadvance, ?_⟩)
          rw [hsame, ← hcompletion]
  · exact .inr (.inl (hcompleted.later hadvance))
  · exact .inr (.inr (hexpired.later hadvance))

theorem leasesTracked_of_reachable {prims : Primitives} {permit : Moment Database Mutation → Mutation → Prop}
    {start : Database} {system : ControlState} (hreach : Reachable prims permit start system) :
    LeasesTracked system.toMoment := by
  apply hreach.guarded_invariant LeasesTracked
  · intro moment after htracked hdrift
    apply htracked.advance
    intro id lease hlease
    obtain ⟨_, _, _, rfl⟩ := hdrift
    exact .inl ⟨lease, hlease, .inl rfl⟩
  · intro moment mutation after htracked horigin _ hcommitted
    apply htracked.advance
    intro id lease hlease
    rcases hcommitted.lease_persists hlease with hkept | ⟨now, rfl, hended⟩
    · exact .inl hkept
    · obtain ⟨past, hpast, rfl⟩ := horigin
      exact .inr ⟨past, hpast, hended⟩
  · intro past hpast id lease hlease
    rw [Moment.before_start_iff.mp hpast] at hlease
    exact .inl hlease

/-- No lease is granted on a location that is not available. -/
structure LeasesClosed (before after : Database) : Prop where
  locations : LocationsEvolve before after
  leases : ∀ id location, before.objects.locations.lookup id = some location → location.state ≠ .available →
    ∀ leaseId new, after.lifecycle.readLeases.lookup leaseId = some new → new.locationId = id →
      ∃ old, before.lifecycle.readLeases.lookup leaseId = some old ∧ old.Becomes new

theorem ReadLeaseRow.Becomes.locationId {old new : ReadLeaseRow} (h : old.Becomes new) :
    new.locationId = old.locationId := by
  rcases h with rfl | ⟨_, rfl⟩
  · rfl
  · rfl

theorem LeasesClosed.trans {first second third : Database} (h : LeasesClosed first second)
    (h' : LeasesClosed second third) : LeasesClosed first third where
  locations := h.locations.trans h'.locations
  leases := by
    intro id location hlocation hstate leaseId new hnew hid
    obtain ⟨middle, hmiddle, hevolves⟩ := h.locations id location hlocation
    obtain ⟨lease, hlease, hsecond⟩ := h'.leases id middle hmiddle (hevolves.unavailable hstate) leaseId new hnew hid
    obtain ⟨old, hold, hfirst⟩ :=
      h.leases id location hlocation hstate leaseId lease hlease (hsecond.locationId.symm.trans hid)
    exact ⟨old, hold, hfirst.trans hsecond⟩

theorem LeasesClosed.of_eq {before after : Database} (hobjects : after.objects = before.objects)
    (hleases : after.lifecycle.readLeases = before.lifecycle.readLeases) : LeasesClosed before after :=
  ⟨.of_eq (by rw [hobjects]), fun _ _ _ _ _ new hnew _ => ⟨new, hleases ▸ hnew, .inl rfl⟩⟩

theorem Committed.leasesClosed {before after : Database} {mutation : Mutation} (h : Committed before after mutation) :
    LeasesClosed before after := by
  refine ⟨h.locationsEvolve, ?_⟩
  intro id location hlocation hstate leaseId new hnew hid
  rcases h.lease_origin hnew with hold | ⟨found, hfound, havailable⟩
  · exact hold
  · rw [hid, hlocation] at hfound
    cases hfound
    exact absurd havailable hstate

theorem leasesClosed_of_runs {prims : Primitives} {permit : Moment Database Mutation → Mutation → Prop}
    {system later : ControlState} (hrun : (controlPlane prims).Runs permit system later) :
    LeasesClosed system.state later.state := by
  apply runs_relate LeasesClosed ?_ (fun h h' => h.trans h') ?_ ?_ hrun
  · exact fun db => .of_eq rfl rfl
  · rintro before after ⟨_, _, _, rfl⟩
    exact .of_eq rfl rfl
  · exact fun _ hcommitted => hcommitted.leasesClosed

/-! ### Deletion -/

/-- What a pass found when it revalidated a location: the tombstone, and no unfinished lease under its clock. -/
theorem loadRevalidated_eq_some {db : Database} {id : Identity} {now : Nat} {task : LocationDeleteTaskRow}
    {driver : DriverRow} (h : loadRevalidated db id now = some (task, driver)) :
    (∃ location, db.objects.locations.lookup id = some location ∧ location.state = .tombstoned) ∧
      ∀ leaseId lease, db.lifecycle.readLeases.lookup leaseId = some lease → lease.locationId = id →
        lease.completedAt = none → lease.expiresAt ≤ now := by
  simp only [loadRevalidated, Option.bind_eq_bind, Option.bind_eq_some_iff, require_eq_some, Bool.and_eq_true,
    beq_iff_eq, Bool.not_eq_true'] at h
  obtain ⟨_, _, location, hlocation, _, _, _, hvalid, _⟩ := h
  refine ⟨⟨location, hlocation, hvalid.1.1.1.1.1.1.1.1.1.2⟩, ?_⟩
  intro leaseId lease hlease hid hopen
  have hactive := hvalid.2
  rw [activeLease, Table.any_eq_false] at hactive
  have hexpired := hactive leaseId lease hlease
  simpa [hid, hopen] using hexpired

/-- Whenever a lifecycle pass asks the provider to delete a location, every lease ever granted on it was completed or
has expired, and no lease will be granted on it again. -/
theorem location_deletes_after_leases {prims : Primitives} {start : Database} {system : ControlState}
    (hreach : Reachable prims anyBatch start system) (hclock : ClockMonotone system.toMoment) {index : Nat}
    {id : Identity} {kind : DriverKind} {driverId storageKey : Text} {provider : ProviderIdentity} {sizeBytes : Nat}
    {next : Answer → Handler}
    (hthread : system.threads[index]? =
      some (.call (.deleteObject (.location id) kind driverId storageKey provider sizeBytes) next)) :
    (∀ past : Instant, past.Before system.toMoment → ∀ leaseId lease,
        past.state.lifecycle.readLeases.lookup leaseId = some lease → lease.locationId = id →
          lease.expiresAt ≤ system.state.now ∨ LeaseCompleted leaseId lease past system.toMoment) ∧
      ∀ later, (controlPlane prims).Runs anyBatch system later → ∀ grant after, grant.locationId = id →
        execute (.leaseGrant grant) later.state ≠ some (after, true) := by
  obtain ⟨clock, task, driver, ⟨start, hstart, rfl⟩, ⟨check, hcheck, hload⟩, _⟩ := hreach.effectOrigin hthread
  obtain ⟨⟨location, hlocation, htombstoned⟩, hopen⟩ := loadRevalidated_eq_some hload
  have hstate : location.state ≠ .available := by simp [htombstoned]
  have hstarted : start.state.now ≤ system.state.now := hclock start system.toMoment hstart (.refl _)
  constructor
  · intro past hpast leaseId lease hlease hid
    rcases hpast.total hcheck with hbefore | hafter
    · -- the lease was granted before the check, which then saw what had become of it
      obtain ⟨checked, hchecked, _, rfl⟩ := Machine.runs_of_before hreach hcheck
      rcases leasesTracked_of_reachable hchecked past hbefore leaseId lease hlease with hsame | hcompleted |
        ⟨expiry, hexpiry, hexpired⟩
      · cases hcompletion : lease.completedAt with
        | none => exact .inl ((hopen leaseId lease hsame hid hcompletion).trans hstarted)
        | some time =>
            refine .inr ⟨past, time, .refl _, hpast, ?_⟩
            rw [hlease, ← hcompletion]
      · exact .inr (hcompleted.later hcheck)
      · exact .inl (hexpired.trans (hclock expiry system.toMoment (hexpiry.trans hcheck) (.refl _)))
    · -- a lease seen after the check was there at the check
      obtain ⟨seen, hseen, _, rfl⟩ := Machine.runs_of_before hreach hpast
      obtain ⟨checked, _, hrun, rfl⟩ := Machine.runs_of_before hseen hafter
      obtain ⟨old, hold, hbecomes⟩ :=
        (leasesClosed_of_runs hrun).leases id location hlocation hstate leaseId lease hlease hid
      cases hcompletion : lease.completedAt with
      | some time =>
          refine .inr ⟨seen.toMoment, time, .refl _, hpast, ?_⟩
          rw [hlease, ← hcompletion]
      | none =>
          rcases hbecomes with rfl | ⟨time, rfl⟩
          · exact .inl ((hopen leaseId lease hold hid hcompletion).trans hstarted)
          · cases hcompletion
  · intro later hrun grant after hid hgrant
    obtain ⟨checked, _, hrest, rfl⟩ := Machine.runs_of_before hreach hcheck
    obtain ⟨found, hfound, hevolves⟩ := (leasesClosed_of_runs (hrest.trans hrun)).locations id location hlocation
    subst hid
    simp only [execute, executeLeaseGrant] at hgrant
    split at hgrant
    · rename_i version other _ hother
      rw [hfound] at hother
      cases hother
      rw [if_neg (fun hallowed => hevolves.unavailable hstate hallowed.2.2)] at hgrant
      simp at hgrant
    · simp at hgrant

namespace Sample

def leasedObject : List (Machine.Event Request Database Answer) :=
  putAll 0 1 root [97] 0 ++ complete 2 (.client bearer (.planDownload (fresh 12) (fresh 900)))

/-- The read completes, and the object is removed and deleted once its grace is over. -/
def deletedObject : List (Machine.Event Request Database Answer) :=
  leasedObject ++ (complete 3 (.client bearer (.completeRead (fresh 900))) ++ complete 4 (removeRequest 2 root [97] 1) ++
    wait 2000000 :: .request .maintenance :: advances 5 9)

def objectLease : ReadLeaseRow := ⟨fresh 12, fresh 13, tokenId, 1000000000, 100, none⟩

theorem location_deletes_after_leases_removed :
    ∃ system, Reachable prims anyBatch database system ∧ ClockMonotone system.toMoment ∧
      (∃ next, system.threads[5]? = some (.call (.deleteObject (.location (fresh 13)) .r2V1 driverId (key 1)
        ⟨some [110], none, none⟩ 10) next)) ∧
      (∃ past : Instant, past.state.lifecycle.readLeases.lookup (fresh 900) = some objectLease ∧
        LeaseCompleted (fresh 900) objectLease past system.toMoment) ∧
      ∀ later, (controlPlane prims).Runs anyBatch system later → ∀ grant after, grant.locationId = fresh 13 →
        execute (.leaseGrant grant) later.state ≠ some (after, true) := by
  have hreach := reachable_any_run deletedObject (by
    intro change hmem db
    simp only [deletedObject, leasedObject, putAll, complete, advances, wait, List.mem_append, List.mem_cons,
      List.mem_replicate, reduceCtorEq, and_false, or_false, false_or, Machine.Event.become.injEq] at hmem
    rw [hmem]
    exact ⟨_, _, _, rfl⟩)
  have hclock : ClockMonotone (run deletedObject).toMoment := clockMonotone_of_pairwise (by decide +kernel)
  have hcalled : (run deletedObject).called 5 =
      some (.deleteObject (.location (fresh 13)) .r2V1 driverId (key 1) ⟨some [110], none, none⟩ 10) := by
    decide +kernel
  obtain ⟨next, hthread⟩ := System.called_eq_some hcalled
  obtain ⟨hleases, hclosed⟩ := location_deletes_after_leases hreach hclock hthread
  have hgranted : (run leasedObject).state.lifecycle.readLeases.lookup (fresh 900) = some objectLease := by
    decide +kernel
  have hended := hleases _ (before_run_append leasedObject _) (fresh 900) objectLease hgranted rfl
  have hlive : ¬objectLease.expiresAt ≤ (run deletedObject).state.now := by decide +kernel
  exact ⟨_, hreach, hclock, ⟨next, hthread⟩, ⟨_, hgranted, hended.resolve_left hlive⟩, hclosed⟩

end Sample

end Skydriver
