import Skydriver.Control.Passes

/-!
# Read leases only delay deletions

A download in progress holds back the deletion of the object it reads.  In the runs in which no pass looks at a location
while a lease on it is active, that is all it does: the task comes due again, and passes get to it.  A pass that looks
during a lease gives the task up instead, and nothing ever deletes the object.
-/

namespace Skydriver

/-- A read lease only delays the deletion of an object: a task claimed under the lease comes due again after its end,
unless another obstacle was met in the meantime, and is given up only if one was; once it is due with nothing left in the
way, maintenance deletes the object, in the pass that turns to it after as many passes as other tasks may take. -/
structure LeaseOnlyDelays (refuses : Identity → Prop) (id : Identity) (now : Instant) : Prop where
  claimable : ∀ (past : Instant) (clock : Nat) (after : Database),
    execute (.locationClaim id clock) past.state = some (after, true) →
    (past.advance (some (.locationClaim id clock)) after).Before now →
    activeLease past.state id clock = true →
    (∀ middle : Instant, past.Before middle → middle.Before now → middle.state.unobstructed id = true) → ¬refuses id →
    activeLease now.state id now.state.now = false →
      ∃ row, now.state.deleteTask id = some row ∧
        (row.state = .deleted ∨ ∃ time, ∀ clock ≥ time, locationTaskDue row clock = true)
  deletes : ∀ time, (now.state.deleteTask id).any (locationTaskDue · time) = true →
    activeLease now.state id time = false → now.state.unobstructed id = true →
      ∃ enough, ∀ passes ≥ enough, ∀ after, PassedAlone id passes (now.state.atTime time) after → after.Deleted id
  blocked : ∀ row, now.state.deleteTask id = some row → row.state = .blocked → BlockedBy refuses id row.fencingToken now

/-- A task claimed under a fence was given up for an obstacle met since. -/
theorem TaskSound.not_blocked {refuses : Identity → Prop} {id : Identity} {now : Instant} (h : TaskSound refuses id now)
    {claim : Instant} {held row : LocationDeleteTaskRow} (hclaim : claim.Before now)
    (hheld : claim.state.deleteTask id = some held)
    (hfirst : ∀ past : Instant, past.Before claim → past ≠ claim → ∀ old, past.state.deleteTask id = some old →
      old.fencingToken < held.fencingToken)
    (hfree : ∀ middle : Instant, claim.Before middle → middle.Before now → middle.state.unobstructed id = true)
    (hrefuses : ¬refuses id) (hrow : now.state.deleteTask id = some row) : row.state ≠ .blocked := by
  intro hblocked
  obtain ⟨found, look, hlook, hnow, ⟨old, hold, _, hfence⟩, hobstacle⟩ := h.blocked row hrow hblocked
  have hobstructed := hobstacle.resolve_left hrefuses
  have hlater : claim.Before found := by
    rcases hclaim.total (hlook.trans hnow) with hbefore | hbefore
    · exact hbefore
    · by_cases hsame : found = claim
      · exact hsame ▸ .refl _
      · -- the fence of an earlier claim is smaller
        have hsmall := hfirst found hbefore hsame old hold
        obtain ⟨new, hnew, hkept⟩ := (h.related claim now hclaim (.refl now)).task hheld
        rw [hrow] at hnew
        cases hnew
        have hgrown := hkept.fence
        omega
  rw [hfree look (hlater.trans hlook) hnow] at hobstructed
  cases hobstructed

/-- If no pass looks at a location while a read lease on it is active, leases only delay deletions. -/
theorem read_lease_only_delays {prims : Primitives} {refuses : Identity → Prop} {start : Database} {system : ControlState}
    (hstart : Bootstrapped prims start)
    (hrun : (controlPlane prims).ObservedRuns anyBatch LooksWithoutLease (RefusesOnly refuses) (Machine.initial start)
      system) (id : Identity) : LeaseOnlyDelays refuses id system.toMoment := by
  have hsound := taskSound_of_runs hstart hrun id
  constructor
  · intro past clock after hexecute hclaim _ hfree hrefuses _
    have hadvance : past.Before (past.advance (some (.locationClaim id clock)) after) := (Moment.Before.refl past).advance _ _
    obtain ⟨row, held, hrow, hheld, hfence⟩ := executeLocationClaim_fence hexecute
    obtain ⟨new, hnew, _⟩ := (hsound.related _ _ hclaim (.refl _)).task hheld
    have hblocked : new.state ≠ .blocked := by
      apply hsound.not_blocked hclaim hheld ?_ (fun middle hmiddle => hfree middle (hadvance.trans hmiddle)) hrefuses hnew
      intro earlier hearlier hother old hold
      have hbefore := (Moment.before_advance_iff.mp hearlier).resolve_left hother
      obtain ⟨found, hfound, hkept⟩ := (hsound.related _ _ hbefore (hadvance.trans hclaim)).task hold
      rw [hrow] at hfound
      cases hfound
      exact hkept.fence.trans_lt hfence
    exact ⟨new, hnew, (hsound.timely _ (.refl _) new hnew).comes_due hblocked⟩
  · intro time hdue hleases hfree
    obtain ⟨row, hrow, hdue⟩ := (Option.any_eq_true _ _).mp hdue
    have hscheduled := hsound.timely _ (.refl _) row hrow
    have hwaits : Waits id row (system.state.atTime time) :=
      ⟨hrow, hdue, hscheduled.deleteAfter_le hdue, hscheduled.turn_le hdue, hleases, hfree⟩
    exact hwaits.deleted
  · exact hsound.blocked

namespace Sample

/-- The handler does not give up a location it fails to load, or every lease has been completed. -/
def leaselessLook (next : Database → Handler) (db : Database) : Bool :=
  match next database with
  | .write (.locationFail _ _ _) _ => db.lifecycle.readLeases.entries.all fun row => row.2.completedAt.isSome
  | _ => true

theorem looksWithoutLease_of_leaselessLook (next : Database → Handler) (db : Database) (h : leaselessLook next db = true) :
    LooksWithoutLease next db := by
  rintro now id fencingToken rest rfl
  have hnone : loadRevalidated database id now = none := rfl
  rw [leaselessLook, revalidate, hnone, failLocation, List.all_eq_true] at h
  rw [activeLease, Table.any_eq_false]
  intro leaseId lease hlease
  have hcompleted := h _ (Table.mem_entries_iff.mpr hlease)
  simp [Option.isSome_iff_ne_none.mp hcompleted]

/-- The bucket never refuses to delete an object. -/
def deletesAll (_ : Effect) (answer : Answer) : Bool := answer != .blocked

/-- A removed object whose delete task is about to be claimed while a read lasts. -/
def awaitedObject : List (Machine.Event Request Database Answer) :=
  leasedObject ++ (complete 3 (removeRequest 2 root [97] 1) ++ wait 2000000 :: .request .maintenance :: advances 4 6)

/-- The read completes before the pass that claimed the task looks at the location. -/
def delayedObject : List (Machine.Event Request Database Answer) :=
  awaitedObject ++ (advances 4 2 ++ complete 5 (.client bearer (.completeRead (fresh 900))) ++ advances 4 1 ++
    .reply 4 .retry :: advances 4 12)

/-- The pass looks at the location during the read, which later expires. -/
def abandonedObject : List (Machine.Event Request Database Answer) :=
  awaitedObject ++ [.advance 4] ++ (advances 4 18 ++ [wait 1000000001])

/-- The claim that a handler is about to submit. -/
def claiming (system : ControlState) (index : Nat) : Option (Identity × Nat) :=
  match system.threads[index]? with
  | some (.write (.locationClaim id clock) _) => some (id, clock)
  | _ => none

theorem claiming_eq_some {system : ControlState} {index : Nat} {id : Identity} {clock : Nat}
    (h : claiming system index = some (id, clock)) :
    ∃ next, system.threads[index]? = some (.write (.locationClaim id clock) next) := by
  unfold claiming at h
  split at h
  · rename_i found time next hthread
    cases h
    exact ⟨next, hthread⟩
  · cases h

theorem toMoment_run_claim {events : List (Machine.Event Request Database Answer)} {index : Nat} {id : Identity}
    {clock : Nat} {after : Database} (hclaiming : claiming (run events) index = some (id, clock))
    (hexecute : execute (.locationClaim id clock) (run events).state = some (after, true)) :
    (run (events ++ [.advance index])).toMoment = (run events).advance (some (.locationClaim id clock)) after := by
  obtain ⟨next, hthread⟩ := claiming_eq_some hclaiming
  have hlast : run (events ++ [.advance index]) = (controlPlane prims).perform (serve prims) (run events) (.advance index) := by
    rw [run, run, Machine.performAll, Machine.performAll, List.foldl_append, List.foldl_cons, List.foldl_nil]
  rw [hlast]
  exact Machine.toMoment_perform_write hthread hexecute

/-- A read that completes before the pass looks does not stop a task from coming due again. -/
theorem read_lease_only_delays_delayed :
    activeLease (run awaitedObject).state (fresh 13) 2000000 = true ∧
      claiming (run awaitedObject) 4 = some (fresh 13, 2000000) ∧
      ((run delayedObject).state.deleteTask (fresh 13)).map LocationDeleteTaskRow.state = some .retry ∧
      LeaseOnlyDelays (fun _ => False) (fresh 13) (run delayedObject).toMoment := by
  refine ⟨by decide +kernel, by decide +kernel, by decide +kernel, ?_⟩
  have hrun : (controlPlane prims).ObservedRuns anyBatch LooksWithoutLease (RefusesOnly fun _ => False)
      (Machine.initial database) (run delayedObject) := by
    apply Machine.observedRuns_performAll leaselessLook deletesAll
    · exact fun request => ⟨request, rfl⟩
    · exact fun _ _ => trivial
    · exact looksWithoutLease_of_leaselessLook
    · rintro effect answer hanswer _ _ _ _ _ _ _ rfl
      simp [deletesAll] at hanswer
    · intro change hmem db
      simp only [delayedObject, awaitedObject, leasedObject, putAll, complete, advances, wait, List.mem_append, List.mem_cons,
        List.mem_replicate, reduceCtorEq, and_false, or_false, false_or, Machine.Event.become.injEq] at hmem
      rw [hmem]
      exact ⟨_, _, _, rfl⟩
    · decide +kernel
    · exact .refl
  exact read_lease_only_delays bootstrapped_database hrun (fresh 13)

end Sample

/-- A pass that looks at a location during a read gives up its deletion for good: the task claimed then never comes due
again, although the bucket refuses nothing and only the lease was ever in the way. -/
theorem read_lease_blocks_deletion :
    Bootstrapped Sample.prims Sample.database ∧ ∃ system,
      (controlPlane Sample.prims).ObservedRuns anyBatch (fun _ _ => True) (RefusesOnly fun _ => False)
        (Machine.initial Sample.database) system ∧
      ∃ id, ¬LeaseOnlyDelays (fun _ => False) id system.toMoment := by
  refine ⟨Sample.bootstrapped_database, Sample.run Sample.abandonedObject, ?_, Sample.fresh 13, ?_⟩
  · apply Machine.observedRuns_performAll (fun _ _ => true) Sample.deletesAll
    · exact fun request => ⟨request, rfl⟩
    · exact fun _ _ => trivial
    · exact fun _ _ _ => trivial
    · rintro effect answer hanswer _ _ _ _ _ _ _ rfl
      simp [Sample.deletesAll] at hanswer
    · intro change hmem db
      simp only [Sample.abandonedObject, Sample.awaitedObject, Sample.leasedObject, Sample.putAll, Sample.complete,
        Sample.advances, Sample.wait, List.mem_append, List.mem_cons, List.mem_replicate, List.not_mem_nil, reduceCtorEq,
        and_false, or_false, false_or, Machine.Event.become.injEq] at hmem
      rcases hmem with hmem | hmem
      all_goals
        rw [hmem]
        exact ⟨_, _, _, rfl⟩
    · decide +kernel
    · exact .refl
  · intro hdelays
    have hclaiming : Sample.claiming (Sample.run Sample.awaitedObject) 4 = some (Sample.fresh 13, 2000000) := by
      decide +kernel
    obtain ⟨after, hexecute⟩ : ∃ after, execute (.locationClaim (Sample.fresh 13) 2000000)
        (Sample.run Sample.awaitedObject).state = some (after, true) := by
      have hdue : ((Sample.run Sample.awaitedObject).state.deleteTask (Sample.fresh 13)).any
          (locationTaskDue · 2000000) = true := by decide +kernel
      obtain ⟨row, hrow, hdue⟩ := (Option.any_eq_true _ _).mp hdue
      obtain ⟨after, _, hexecute, _⟩ := executeLocationClaim_of_due hrow hdue
      exact ⟨after, hexecute⟩
    have hbefore : ((Sample.run Sample.awaitedObject).advance (some (.locationClaim (Sample.fresh 13) 2000000))
        after).Before (Sample.run Sample.abandonedObject).toMoment := by
      rw [← Sample.toMoment_run_claim hclaiming hexecute, Sample.abandonedObject]
      exact Sample.before_run_append _ _
    obtain ⟨row, hrow, hopen⟩ := hdelays.claimable _ _ _ hexecute hbefore (by decide +kernel)
      (fun middle hpast hmiddle => hpast.forall_between hmiddle (·.unobstructed (Sample.fresh 13)) (by decide +kernel)
        (by decide +kernel)) not_false (by decide +kernel)
    have hblocked : ((Sample.run Sample.abandonedObject).state.deleteTask (Sample.fresh 13)).map
        LocationDeleteTaskRow.state = some .blocked := by decide +kernel
    rw [hrow, Option.map_some, Option.some.injEq] at hblocked
    rcases hopen with hdeleted | ⟨time, hdue⟩
    · rw [hblocked] at hdeleted
      cases hdeleted
    · have hlast := hdue time le_rfl
      simp [locationTaskDue, hblocked] at hlast

end Skydriver
