import Skydriver.Control.Leases
import Skydriver.Lib.Observing

/-!
# The driver quota

The trigger works on SQL numbers, where sums may leave the integers.  On the sizes that reach the database it still
decides by the exact sum, but it compares with 2^63 - 1 where no limit is configured: it meets its purpose as long as such
a sum is an SQL integer.  What an intent reserves is the size that its publication stores, so the load of a driver grows
by admission only.
-/

namespace Skydriver

/-! ### Sizes -/

def encodedSize (description : ObjectDescription) : Nat :=
  match description.cryptoSuite with
  | .plaintext => description.plaintextBytes.toNat
  | .encrypted => description.plaintextBytes.toNat +
      16 * expectedBlockCount description.plaintextBytes.toNat description.encryptionFrameBytes

theorem reservedBytes_denotes {description : ObjectDescription}
    (h : validInteger description.plaintextBytes.toNat = true) :
    (reservedBytes description).Denotes (encodedSize description) := by
  have hfits : description.plaintextBytes.toNat < integerBound := by
    rw [validInteger, decide_eq_true_eq] at h
    exact h
  unfold reservedBytes encodedSize
  cases description.cryptoSuite with
  | plaintext => exact SqlNumber.denotes_integer hfits
  | encrypted => exact (SqlNumber.denotes_integer hfits).add (SqlNumber.denotes_sixteen_mul _)

theorem encodedSize_of_expected {description : ObjectDescription} {encodedBytes : Nat}
    (h : expectedEncodedBytes description = some encodedBytes) : encodedBytes = encodedSize description := by
  unfold expectedEncodedBytes at h
  unfold encodedSize
  cases hsuite : description.cryptoSuite with
  | plaintext =>
      rw [hsuite] at h
      exact (Option.some.inj h).symm
  | encrypted =>
      simp only [hsuite, checkedAdd] at h
      split_ifs at h
      · cases h
        rw [Nat.mul_comm]

/-- Every size in the database is an SQL integer. -/
structure SizesFit (db : Database) : Prop where
  intents : ∀ id intent, db.journal.putIntents.lookup id = some intent →
    validInteger intent.description.plaintextBytes.toNat = true
  locations : ∀ id location, db.objects.locations.lookup id = some location →
    validInteger location.sizeBytes = true

theorem PrepareOrigin.plaintextBytes {prims : Primitives} {batch : PutPrepareBatch} {now : Instant}
    (h : PrepareOrigin prims batch now) : validInteger batch.intent.description.plaintextBytes.toNat = true := by
  obtain ⟨token, request, context, target, clock, rfl, hvalid, _⟩ := h.bound
  simp only [validPrepareRequest, Bool.and_eq_true] at hvalid
  tauto

theorem Committed.sizesFit {prims : Primitives} {moment : Instant} {mutation : Mutation} {after : Database}
    (h : Committed moment.state after mutation) (horigin : Origin prims mutation moment)
    (hfit : SizesFit moment.state) : SizesFit after where
  intents := by
    intro id intent hintent
    rcases h.intent_origin hintent with ⟨old, hold, hevolves⟩ | ⟨batch, rfl, _, _, rfl⟩
    · obtain ⟨_, _, rfl⟩ := hevolves.same
      exact hfit.intents id old hold
    · exact PrepareOrigin.plaintextBytes horigin
  locations := by
    intro id location hlocation
    rcases h.location_origin hlocation with ⟨old, hold, hevolves⟩ | ⟨batch, intent, rfl, _, _, rfl⟩
    · rw [hevolves.sizeBytes]
      exact hfit.locations id old hold
    · obtain ⟨_, hcommit⟩ := horigin
      exact hcommit.integer

theorem sizesFit_of_reachable {prims : Primitives} {permit : Moment Database Mutation → Mutation → Prop}
    {start : Database} {system : ControlState} (hstart : Bootstrapped prims start)
    (hreach : Reachable prims permit start system) : SizesFit system.state := by
  apply hreach.guarded_invariant fun moment => SizesFit moment.state
  · intro moment after hfit hdrift
    obtain ⟨_, _, _, rfl⟩ := hdrift
    exact ⟨hfit.intents, hfit.locations⟩
  · intro moment mutation after hfit horigin _ hcommitted
    exact hcommitted.sizesFit horigin hfit
  · constructor
    · obtain ⟨_, hjournal⟩ := hstart.journal
      intro id intent hintent
      rw [hjournal] at hintent
      cases hintent
    · intro id location hlocation
      rw [hstart.objects] at hlocation
      cases hlocation

/-! ### Load -/

namespace Database

/-- What the locations and the live reservations of a driver amount to, each under a measure of its own. -/
def driverLoad (stored : LocationRow → Nat) (reserved : ObjectDescription → Nat) (db : Database) (driverId : Text) :
    Nat :=
  ((db.driverLocations driverId).map stored).sum +
    ((db.driverReservations driverId).map fun intent => reserved intent.description).sum

def driverUsage (db : Database) (driverId : Text) : Nat := db.driverLoad LocationRow.sizeBytes encodedSize driverId

def driverObjects (db : Database) (driverId : Text) : Nat := db.driverLoad (fun _ => 1) (fun _ => 1) driverId

end Database

/-- A configured limit is exceeded by so many bytes or so many objects. -/
def DriverQuotaRow.Exceeded (quota : DriverQuotaRow) (bytes objects : Nat) : Prop :=
  (∃ limit, quota.maxPhysicalBytes = some limit ∧ limit.val < bytes) ∨
    ∃ limit, quota.maxObjectCount = some limit ∧ limit.val < objects

/-- Where no limit is configured, the number compared with it is an SQL integer. -/
def DriverQuotaRow.Fits (quota : DriverQuotaRow) (bytes objects : Nat) : Prop :=
  (quota.maxPhysicalBytes = none → bytes < integerBound) ∧ (quota.maxObjectCount = none → objects < integerBound)

/-- Usage and reservations of the driver are within its limits. -/
def Database.DriverWithin (db : Database) (driverId : Text) : Prop :=
  ∀ quota, db.surroundings.driverQuotas.lookup driverId = some quota →
    ¬quota.Exceeded (db.driverUsage driverId) (db.driverObjects driverId)

theorem DriverQuotaRow.Exceeded.mono {quota : DriverQuotaRow} {bytes bytes' objects objects' : Nat}
    (h : quota.Exceeded bytes objects) (hbytes : bytes ≤ bytes') (hobjects : objects ≤ objects') :
    quota.Exceeded bytes' objects' := by
  rcases h with ⟨limit, hlimit, hexceeds⟩ | ⟨limit, hlimit, hexceeds⟩
  · exact .inl ⟨limit, hlimit, hexceeds.trans_le hbytes⟩
  · exact .inr ⟨limit, hlimit, hexceeds.trans_le hobjects⟩

/-- What the trigger compares with stands for a configured limit, and for none only among SQL integers. -/
theorem effectiveLimit_exceeded_iff (quota : DriverQuotaRow) (bytes objects : Nat) :
    (Database.effectiveLimit quota.maxPhysicalBytes < bytes ∨ Database.effectiveLimit quota.maxObjectCount < objects) ↔
      quota.Exceeded bytes objects ∨ ¬quota.Fits bytes objects := by
  obtain ⟨maxPhysicalBytes, maxObjectCount⟩ := quota
  simp only [DriverQuotaRow.Exceeded, DriverQuotaRow.Fits, Database.effectiveLimit, integerBound]
  cases maxPhysicalBytes with
  | none =>
      cases maxObjectCount with
      | none =>
          simp
          omega
      | some limit =>
          simp
          omega
  | some limit =>
      cases maxObjectCount with
      | none =>
          simp
          omega
      | some limit => simp

theorem effectiveLimit_lt (limit : Option (Fin (2 ^ 63))) : Database.effectiveLimit limit < integerBound := by
  cases limit with
  | none => decide
  | some limit => exact limit.isLt

theorem storedSum_denotes {db : Database} (hfit : SizesFit db) (driverId : Text) :
    match SqlNumber.sum ((db.driverLocations driverId).map fun location => .integer location.sizeBytes) with
    | some total => total.Denotes ((db.driverLocations driverId).map LocationRow.sizeBytes).sum
    | none => integerBound ≤ ((db.driverLocations driverId).map LocationRow.sizeBytes).sum := by
  apply SqlNumber.sum_denotes
  intro location hlocation
  obtain ⟨row, hrow, rfl⟩ := List.mem_map.mp (List.mem_of_mem_filter hlocation)
  have hsize := hfit.locations row.1 row.2 (Table.mem_entries_iff.mp hrow)
  exact SqlNumber.denotes_integer (of_decide_eq_true hsize)

theorem reservedSum_denotes {db : Database} (hfit : SizesFit db) (driverId : Text) :
    match SqlNumber.sum ((db.driverReservations driverId).map fun intent => reservedBytes intent.description) with
    | some total => total.Denotes ((db.driverReservations driverId).map fun intent => encodedSize intent.description).sum
    | none => integerBound ≤ ((db.driverReservations driverId).map fun intent => encodedSize intent.description).sum := by
  apply SqlNumber.sum_denotes
  intro intent hintent
  obtain ⟨row, hrow, rfl⟩ := List.mem_map.mp (List.mem_of_mem_filter (List.mem_of_mem_filter hintent))
  exact reservedBytes_denotes (hfit.intents row.1 row.2 (Table.mem_entries_iff.mp hrow))

/-- The comparison of bytes decides by the exact sum: what does not fit an SQL integer exceeds every limit. -/
theorem driverBytes_admits_iff {db : Database} (hfit : SizesFit db) {intent : PutIntentRow}
    (hintent : validInteger intent.description.plaintextBytes.toNat = true) {limit : Nat}
    (hlimit : limit < integerBound) :
    ((db.driverBytes intent).any fun total => !total.exceeds limit) = true ↔
      db.driverUsage intent.driverId + encodedSize intent.description ≤ limit := by
  have hstored := storedSum_denotes hfit intent.driverId
  have hreserved := reservedSum_denotes hfit intent.driverId
  have hnew := reservedBytes_denotes hintent
  rw [Database.driverUsage, Database.driverLoad, Database.driverBytes]
  cases hused : SqlNumber.sum ((db.driverLocations intent.driverId).map fun location =>
      .integer location.sizeBytes) with
  | none =>
      rw [hused] at hstored
      simp only [Option.bind_eq_bind, Option.bind_none, Option.any_none, Bool.false_eq_true, false_iff, not_le]
      omega
  | some used =>
      cases htaken : SqlNumber.sum ((db.driverReservations intent.driverId).map fun intent =>
          reservedBytes intent.description) with
      | none =>
          rw [htaken] at hreserved
          simp only [Option.bind_eq_bind, Option.bind_some, Option.bind_none, Option.any_none, Bool.false_eq_true,
            false_iff, not_le]
          omega
      | some taken =>
          rw [hused] at hstored
          rw [htaken] at hreserved
          have hexceeds := ((hstored.add hreserved).add hnew).exceeds_iff hlimit
          simp only [Option.bind_eq_bind, Option.bind_some, Option.any_some, Bool.not_eq_true', ← Bool.not_eq_true,
            hexceeds, not_lt]

/-- The trigger decides by exact sums, with 2^63 - 1 for a limit that is not set. -/
theorem driverQuotaAdmits_iff {db : Database} (hfit : SizesFit db) {intent : PutIntentRow}
    (hintent : validInteger intent.description.plaintextBytes.toNat = true) :
    db.driverQuotaAdmits intent = true ↔
      ∀ quota, db.surroundings.driverQuotas.lookup intent.driverId = some quota →
        db.driverUsage intent.driverId + encodedSize intent.description ≤
            Database.effectiveLimit quota.maxPhysicalBytes ∧
          db.driverObjects intent.driverId + 1 ≤ Database.effectiveLimit quota.maxObjectCount := by
  have hcount : db.driverObjects intent.driverId =
      (db.driverLocations intent.driverId).length + (db.driverReservations intent.driverId).length := by
    simp [Database.driverObjects, Database.driverLoad]
  rw [Database.driverQuotaAdmits]
  cases hquota : db.surroundings.driverQuotas.lookup intent.driverId with
  | none => simp
  | some quota =>
      simp only [Bool.and_eq_true, decide_eq_true_eq, Option.some.injEq, forall_eq', hcount]
      rw [driverBytes_admits_iff hfit hintent (effectiveLimit_lt _)]

/-! ### How the load changes -/

section Load

variable (stored : LocationRow → Nat) (reserved : ObjectDescription → Nat) (driverId : Text)

/-- What a location contributes to the load. -/
def storedWeight (location : LocationRow) : Nat :=
  if location.driverId == driverId && location.state != .deleted then stored location else 0

/-- What an intent contributes to the load at a given time. -/
def reservedWeight (now : Nat) (intent : PutIntentRow) : Nat :=
  if intent.state = .prepared ∧ intent.expiresAt > now ∧ intent.driverId = driverId then reserved intent.description
  else 0

theorem driverLoad_eq (db : Database) : db.driverLoad stored reserved driverId =
    db.objects.locations.total (fun _ => storedWeight stored driverId) +
      db.journal.putIntents.total (fun _ => reservedWeight reserved driverId db.now) := by
  rw [Database.driverLoad, Database.driverLocations, Database.driverReservations, Database.reservations,
    List.filter_filter, Table.total_filter, Table.total_filter]
  congr 2
  funext _ intent
  simp only [reservedWeight, Database.reserves, Bool.and_eq_true, beq_iff_eq, decide_eq_true_eq]
  congr 1
  rw [and_comm, and_assoc]

variable {stored reserved driverId}

theorem storedWeight_le (hsize : ∀ left right : LocationRow, left.sizeBytes = right.sizeBytes → stored left = stored right)
    {old new : LocationRow} (h : old.Evolves new) : storedWeight stored driverId new ≤ storedWeight stored driverId old := by
  unfold storedWeight
  rw [h.driverId, hsize new old h.sizeBytes]
  by_cases hdeleted : old.state = .deleted
  · simp [h.deleted hdeleted]
  · split_ifs with hnew hold
    · exact Nat.le_refl _
    · simp [hdeleted] at hold
      simp [hold] at hnew
    · exact Nat.zero_le _
    · exact Nat.zero_le _

theorem reservedWeight_le {old new : PutIntentRow} {now later : Nat} (h : old.Evolves new) (hlater : now ≤ later) :
    reservedWeight reserved driverId later new ≤ reservedWeight reserved driverId now old := by
  obtain ⟨state, revision, rfl⟩ := h.same
  unfold reservedWeight
  split_ifs with hnew hold
  · exact Nat.le_refl _
  · by_cases hprepared : old.state = .prepared
    · exact absurd ⟨hprepared, lt_of_le_of_lt hlater hnew.2.1, hnew.2.2⟩ hold
    · have hsame := h.final hprepared
      rw [hsame] at hnew
      exact absurd hnew.1 hprepared
  · exact Nat.zero_le _
  · exact Nat.zero_le _

/-- The load of a driver after locations and intents evolved, and time went on. -/
theorem driverLoad_le (hsize : ∀ left right : LocationRow, left.sizeBytes = right.sizeBytes → stored left = stored right)
    {before after : Database}
    (hlocations : ∀ id new, after.objects.locations.lookup id = some new →
      ∃ old, before.objects.locations.lookup id = some old ∧ old.Evolves new)
    (hintents : ∀ id new, after.journal.putIntents.lookup id = some new →
      ∃ old, before.journal.putIntents.lookup id = some old ∧ old.Evolves new) (hclock : before.now ≤ after.now) :
    after.driverLoad stored reserved driverId ≤ before.driverLoad stored reserved driverId := by
  rw [driverLoad_eq, driverLoad_eq]
  apply Nat.add_le_add
  · apply Table.total_le_total
    intro id new hnew
    obtain ⟨old, hold, hevolves⟩ := hlocations id new hnew
    rw [hold]
    exact storedWeight_le hsize hevolves
  · apply Table.total_le_total
    intro id new hnew
    obtain ⟨old, hold, hevolves⟩ := hintents id new hnew
    rw [hold]
    exact reservedWeight_le hevolves hclock

/-- A publication moves the load of its intent from the reservations to the locations. -/
theorem PutCommitted.driverLoad_eq {batch : PutCommitBatch} {intent : PutIntentRow} {db after : Database}
    (h : PutCommitted batch intent db after)
    (hstored : stored (putLocation batch intent) = reserved intent.description) :
    after.driverLoad stored reserved driverId = db.driverLoad stored reserved driverId := by
  obtain ⟨_, _, hfresh, _, _, hlocations⟩ := putObjects_eq_some h.objects
  have hnow : after.now = db.now := congrArg Surroundings.now h.surroundings
  have hgained := Table.total_insert_of_none hfresh (putLocation batch intent) fun _ => storedWeight stored driverId
  have hreleased := Table.total_insert_of_some h.found
    { intent with state := .committed, revision := intent.revision + 1 } fun _ =>
      reservedWeight reserved driverId db.now
  have hweight : storedWeight stored driverId (putLocation batch intent) = reservedWeight reserved driverId db.now intent := by
    simp only [storedWeight, reservedWeight, hstored, h.prepared, h.live]
    simp [putLocation]
  have hcommitted : reservedWeight reserved driverId db.now
      { intent with state := .committed, revision := intent.revision + 1 } = 0 := by
    simp [reservedWeight]
  rw [Skydriver.driverLoad_eq, Skydriver.driverLoad_eq, hlocations, h.putIntents, hnow, hgained]
  omega

/-- The load of a driver grows by admission only, and then by what the new intent reserves. -/
theorem Committed.driverLoad_cases
    (hsize : ∀ left right : LocationRow, left.sizeBytes = right.sizeBytes → stored left = stored right)
    {db after : Database} {mutation : Mutation} (h : Committed db after mutation)
    (hstored : ∀ batch intent, mutation = .putCommit batch → db.journal.putIntents.lookup batch.intentId = some intent →
      stored (putLocation batch intent) = reserved intent.description) :
    after.driverLoad stored reserved driverId ≤ db.driverLoad stored reserved driverId ∨
      ∃ batch, mutation = .putPrepare batch ∧ batch.intent.driverId = driverId ∧ db.quotaAdmits batch.intent = true ∧
        after.driverLoad stored reserved driverId ≤
          db.driverLoad stored reserved driverId + reserved batch.intent.description := by
  have hclock : db.now ≤ after.now := by rw [Database.now, Database.now, h.surroundings]
  rcases h.intents_cases with ⟨batch, rfl, hprepare⟩ | ⟨batch, intent, rfl, hcommit⟩ | ⟨now, rfl, hexpire⟩ | hsame
  · rcases executePutPrepare_eq_some hprepare with rfl | ⟨rfl, _, hadmitted, hnew, _⟩
    · exact .inl (Nat.le_refl _)
    · have hload : Database.driverLoad stored reserved { db with journal := { db.journal with
          putIntents := db.journal.putIntents.insert batch.intentId batch.intent } } driverId =
            db.driverLoad stored reserved driverId + reservedWeight reserved driverId db.now batch.intent := by
        rw [driverLoad_eq, driverLoad_eq]
        show db.objects.locations.total _ + Table.total (db.journal.putIntents.insert batch.intentId batch.intent) _ = _
        rw [Table.total_insert_of_none hnew, Nat.add_comm (reservedWeight _ _ _ _), Nat.add_assoc]
        rfl
      by_cases hdriver : batch.intent.driverId = driverId
      · refine .inr ⟨batch, rfl, hdriver, hadmitted, ?_⟩
        rw [hload, reservedWeight]
        split_ifs
        · exact Nat.le_refl _
        · exact Nat.le_add_right _ _
      · refine .inl (hload.trans ?_).le
        simp [reservedWeight, hdriver]
  · exact .inl (hcommit.driverLoad_eq (hstored batch intent rfl hcommit.found)).le
  · refine .inl (driverLoad_le hsize ?_ ?_ hclock)
    · intro id new hnew
      rcases h.location_origin hnew with hold | ⟨_, _, hmutation, _⟩
      · exact hold
      · cases hmutation
    · intro id new hnew
      rcases h.intent_origin hnew with hold | ⟨_, hmutation, _⟩
      · exact hold
      · cases hmutation
  · refine .inl (driverLoad_le hsize ?_ ?_ hclock)
    · intro id new hnew
      rcases h.location_origin hnew with hold | ⟨batch, intent, _, hcommit, _⟩
      · exact hold
      · -- a publication changes its intent
        have hintent := congrArg (fun intents => intents.lookup batch.intentId) (hcommit.putIntents.symm.trans hsame)
        simp only [AList.lookup_insert, hcommit.found, Option.some.injEq] at hintent
        have hstate := congrArg PutIntentRow.state hintent
        simp [hcommit.prepared] at hstate
    · intro id new hnew
      exact ⟨new, by rw [← hsame, hnew], .refl new⟩

end Load

/-! ### Runs -/

theorem CommitOrigin.stored {prims : Primitives} {start : Database} {system : ControlState}
    {permit : Moment Database Mutation → Mutation → Prop} (hreach : Reachable prims permit start system)
    {batch : PutCommitBatch} {read intent : PutIntentRow} (h : CommitOrigin prims batch read system.toMoment)
    (hintent : system.state.journal.putIntents.lookup batch.intentId = some intent) :
    batch.proof.encodedBytes = encodedSize intent.description := by
  obtain ⟨past, hpast, hread⟩ := h.read
  obtain ⟨new, hnew, hevolves⟩ := intentsEvolve_of_before hreach hpast batch.intentId read hread
  rw [hintent] at hnew
  cases hnew
  obtain ⟨_, _, rfl⟩ := hevolves.same
  exact encodedSize_of_expected h.encoded

theorem Committed.driverWithin {prims : Primitives} {start : Database} {system : ControlState}
    {permit : Moment Database Mutation → Mutation → Prop} (hstart : Bootstrapped prims start)
    (hreach : Reachable prims permit start system) {mutation : Mutation} {after : Database}
    (h : Committed system.state after mutation) (horigin : Origin prims mutation system.toMoment) {driverId : Text}
    (hwithin : system.state.DriverWithin driverId) : after.DriverWithin driverId := by
  intro quota hquota hexceeded
  rw [h.surroundings] at hquota
  have hbytes : after.driverUsage driverId ≤ system.state.driverUsage driverId ∨
      ∃ batch, mutation = .putPrepare batch ∧ batch.intent.driverId = driverId ∧
        system.state.quotaAdmits batch.intent = true ∧
          after.driverUsage driverId ≤ system.state.driverUsage driverId + encodedSize batch.intent.description := by
    apply Committed.driverLoad_cases (fun _ _ heq => heq) h
    intro batch intent hmutation hintent
    subst hmutation
    obtain ⟨_, hcommit⟩ := horigin
    exact hcommit.stored hreach hintent
  have hobjects : after.driverObjects driverId ≤ system.state.driverObjects driverId ∨
      ∃ batch, mutation = .putPrepare batch ∧ batch.intent.driverId = driverId ∧
        system.state.quotaAdmits batch.intent = true ∧
          after.driverObjects driverId ≤ system.state.driverObjects driverId + 1 :=
    Committed.driverLoad_cases (fun _ _ _ => rfl) h (fun _ _ _ _ => rfl)
  have hadmits : ∀ batch, mutation = .putPrepare batch → batch.intent.driverId = driverId →
      system.state.quotaAdmits batch.intent = true → ¬quota.Exceeded
        (system.state.driverUsage driverId + encodedSize batch.intent.description)
        (system.state.driverObjects driverId + 1) := by
    intro batch hmutation hdriver hadmitted hover
    subst hmutation hdriver
    rw [Database.quotaAdmits, Bool.and_eq_true] at hadmitted
    obtain ⟨hbytes, hcount⟩ := (driverQuotaAdmits_iff (sizesFit_of_reachable hstart hreach)
      (PrepareOrigin.plaintextBytes horigin)).mp hadmitted.2 quota hquota
    rcases (effectiveLimit_exceeded_iff _ _ _).mpr (.inl hover) with hover | hover
    · exact absurd hbytes (Nat.not_le_of_lt hover)
    · exact absurd hcount (Nat.not_le_of_lt hover)
  rcases hbytes with hbytes | ⟨batch, hmutation, hdriver, hadmitted, hbytes⟩
  · rcases hobjects with hobjects | ⟨batch, hmutation, hdriver, hadmitted, hobjects⟩
    · exact hwithin quota hquota (hexceeded.mono hbytes hobjects)
    · exact hadmits batch hmutation hdriver hadmitted (hexceeded.mono (Nat.le_add_right_of_le hbytes) hobjects)
  · refine hadmits batch hmutation hdriver hadmitted (hexceeded.mono hbytes ?_)
    rcases hobjects with hobjects | ⟨_, _, _, _, hobjects⟩
    · exact Nat.le_add_right_of_le hobjects
    · exact hobjects

/-- Between two moments the limits of the driver stayed as they were and the clock never ran backwards. -/
def DriverSteady (first last : Instant) (driverId : Text) : Prop :=
  ∀ earlier later : Instant, first.Before earlier → earlier.Before later → later.Before last →
    earlier.state.now ≤ later.state.now ∧
      later.state.surroundings.driverQuotas.lookup driverId = earlier.state.surroundings.driverQuotas.lookup driverId

theorem driverWithin_of_drift {before after : Database} (hdrift : Drift before after) {driverId : Text}
    (hclock : before.now ≤ after.now)
    (hquotas : after.surroundings.driverQuotas.lookup driverId = before.surroundings.driverQuotas.lookup driverId)
    (hwithin : before.DriverWithin driverId) : after.DriverWithin driverId := by
  obtain ⟨_, _, _, rfl⟩ := hdrift
  intro quota hquota hexceeded
  rw [hquotas] at hquota
  refine hwithin quota hquota (hexceeded.mono ?_ ?_)
  · refine driverLoad_le (fun _ _ heq => heq) ?_ ?_ hclock
    · exact fun _ new hnew => ⟨new, hnew, .refl new⟩
    · exact fun _ new hnew => ⟨new, hnew, .refl new⟩
  · refine driverLoad_le (fun _ _ _ => rfl) ?_ ?_ hclock
    · exact fun _ new hnew => ⟨new, hnew, .refl new⟩
    · exact fun _ new hnew => ⟨new, hnew, .refl new⟩

/-- A driver within its limits stays within them, through preparation, publication, expiry and deletion. -/
theorem driverWithin_of_runs {prims : Primitives} {start : Database} {system later : ControlState}
    {permit : Moment Database Mutation → Mutation → Prop} (hstart : Bootstrapped prims start)
    (hreach : Reachable prims permit start system) (hrun : (controlPlane prims).Runs permit system later)
    {driverId : Text} (hsteady : DriverSteady system.toMoment later.toMoment driverId)
    (hwithin : system.state.DriverWithin driverId) : later.state.DriverWithin driverId := by
  induction hrun with
  | refl => exact hwithin
  | @tail before after hrun hstep ih =>
      have hbefore := Machine.before_of_runs hrun
      have hnext := Machine.before_of_runs (Relation.ReflTransGen.single hstep)
      have hearlier : before.state.DriverWithin driverId :=
        ih fun earlier later hfirst hsecond hlast => hsteady earlier later hfirst hsecond (hlast.trans hnext)
      have hafter : Reachable prims permit start after := (hreach.trans hrun).tail hstep
      cases hstep with
      | start _ => exact hearlier
      | drift hdrift =>
          obtain ⟨hclock, hquotas⟩ := hsteady before.toMoment _ hbefore hnext (.refl _)
          exact driverWithin_of_drift hdrift hclock hquotas hearlier
      | read _ => exact hearlier
      | commit _ _ _ _ =>
          obtain ⟨horigin, _, hcommitted⟩ := hafter.committed (.refl _)
          exact hcommitted.driverWithin hstart (hreach.trans hrun) horigin hearlier
      | abort _ => exact hearlier
      | answer _ _ => exact hearlier

/-- The trigger rejects an intent exactly when a limit of its driver is exceeded by the exact sums of stored, reserved and
new bytes or objects. -/
def Database.DriverQuotaExact (db : Database) (intent : PutIntentRow) : Prop :=
  db.driverQuotaAdmits intent = false ↔
    ∃ quota, db.surroundings.driverQuotas.lookup intent.driverId = some quota ∧
      quota.Exceeded (db.driverUsage intent.driverId + encodedSize intent.description)
        (db.driverObjects intent.driverId + 1)

theorem driverQuotaAdmits_eq_false_iff {db : Database} (hfit : SizesFit db) {intent : PutIntentRow}
    (hintent : validInteger intent.description.plaintextBytes.toNat = true) :
    db.driverQuotaAdmits intent = false ↔
      ∃ quota, db.surroundings.driverQuotas.lookup intent.driverId = some quota ∧
        (quota.Exceeded (db.driverUsage intent.driverId + encodedSize intent.description)
            (db.driverObjects intent.driverId + 1) ∨
          ¬quota.Fits (db.driverUsage intent.driverId + encodedSize intent.description)
            (db.driverObjects intent.driverId + 1)) := by
  rw [← Bool.not_eq_true, driverQuotaAdmits_iff hfit hintent]
  simp only [← effectiveLimit_exceeded_iff]
  constructor
  · intro hrejected
    obtain ⟨quota, hquota⟩ := not_forall.mp hrejected
    obtain ⟨hlookup, hexceeds⟩ := Classical.not_imp.mp hquota
    refine ⟨quota, hlookup, ?_⟩
    omega
  · intro hexceeds hadmitted
    obtain ⟨quota, hlookup, hexceeds⟩ := hexceeds
    have hwithin := hadmitted quota hlookup
    omega

/-- In every reachable state the trigger is exact for an intent if and only if a limit that its driver does configure is
exceeded, or every number that it compares without a configured limit is an SQL integer.  And a driver within its limits
stays within them as long as they are not changed and the clock does not run backwards. -/
theorem driver_quota_exact {prims : Primitives} {start : Database} {system : ControlState}
    (hstart : Bootstrapped prims start) (hreach : Reachable prims anyBatch start system) :
    (∀ intent : PutIntentRow, validInteger intent.description.plaintextBytes.toNat = true →
      (system.state.DriverQuotaExact intent ↔
        ∀ quota, system.state.surroundings.driverQuotas.lookup intent.driverId = some quota →
          quota.Exceeded (system.state.driverUsage intent.driverId + encodedSize intent.description)
              (system.state.driverObjects intent.driverId + 1) ∨
            quota.Fits (system.state.driverUsage intent.driverId + encodedSize intent.description)
              (system.state.driverObjects intent.driverId + 1))) ∧
      ∀ (driverId : Text) (later : ControlState), (controlPlane prims).Runs anyBatch system later →
        DriverSteady system.toMoment later.toMoment driverId → system.state.DriverWithin driverId →
          later.state.DriverWithin driverId := by
  constructor
  · intro intent hintent
    rw [Database.DriverQuotaExact, driverQuotaAdmits_eq_false_iff (sizesFit_of_reachable hstart hreach) hintent]
    constructor
    · intro hexact quota hquota
      by_contra hover
      rw [not_or] at hover
      obtain ⟨found, hfound, hexceeded⟩ := hexact.mp ⟨quota, hquota, .inr hover.2⟩
      rw [hquota] at hfound
      cases hfound
      exact hover.1 hexceeded
    · intro hfits
      constructor
      · intro hrejected
        obtain ⟨quota, hquota, hexceeded | hover⟩ := hrejected
        · exact ⟨quota, hquota, hexceeded⟩
        · exact ⟨quota, hquota, (hfits quota hquota).resolve_right hover⟩
      · intro hexceeded
        obtain ⟨quota, hquota, hexceeded⟩ := hexceeded
        exact ⟨quota, hquota, .inl hexceeded⟩
  · intro driverId later hrun hsteady hwithin
    exact driverWithin_of_runs hstart hreach hrun hsteady hwithin

namespace Sample

def setQuota (quota : DriverQuotaRow) : Machine.Event Request Database Answer :=
  .become fun db => { db with
    surroundings := { db.surroundings with driverQuotas := db.surroundings.driverQuotas.insert driverId quota } }

/-- The driver gets a quota row without limits. -/
def register : Machine.Event Request Database Answer := setQuota ⟨none, none⟩

/-- An upload of the largest size that a preparation may declare. -/
def hugeRequest : Request :=
  .client bearer (.prepare
    { directoryId := root
      entryName := [97]
      expectedEntryRevision := 0
      plaintextBytes := 9223372036854775807
      verificationBlockBytes := 9223372036854775807
      verificationBlockCount := 1
      fileRoot := .ofByte 31 2
      metadataRoot := .ofByte 31 1
      blockManifestSha256 := .ofByte 31 1
      blockManifestBytes := 64
      encryptionFrameBytes := 9223372036854775807
      preferredDriverId := none
      idempotencyKey := key 1
      requestSha256 := .ofByte 31 1
      intentId := fresh 10
      newFileId := fresh 11
      versionId := fresh 12
      locationId := fresh 13
      storageKey := key 1 })

/-- After the huge upload was prepared, a small one is about to be. -/
def hugeUpload : List (Machine.Event Request Database Answer) :=
  register :: complete 0 hugeRequest ++ .request (prepareRequest 2 root [98] 0) :: advances 1 5

theorem reachable_hugeUpload : Reachable prims anyBatch database (run hugeUpload) := by
  apply reachable_any_run
  intro change hmem db
  simp only [hugeUpload, register, setQuota, complete, advances, List.mem_append, List.mem_cons, List.mem_replicate, reduceCtorEq,
    and_false, or_false, List.cons_append, Machine.Event.become.injEq] at hmem
  rw [hmem]
  exact ⟨_, _, _, rfl⟩

/-- The preparation that a handler is about to submit. -/
def preparing (system : ControlState) (index : Nat) : Option PutPrepareBatch :=
  match system.submitted index with
  | some (.putPrepare batch) => some batch
  | _ => none

theorem preparing_eq_some {system : ControlState} {index : Nat} {batch : PutPrepareBatch}
    (h : preparing system index = some batch) :
    ∃ next, system.threads[index]? = some (.write (.putPrepare batch) next) := by
  unfold preparing at h
  split at h
  · rename_i found hsubmitted
    cases h
    exact System.submitted_eq_some hsubmitted
  · cases h

theorem hugeUpload_preparing : ∃ batch, preparing (run hugeUpload) 1 = some batch ∧
    (run hugeUpload).state.surroundings.driverQuotas.lookup batch.intent.driverId = some ⟨none, none⟩ ∧
    validInteger batch.intent.description.plaintextBytes.toNat = true ∧
    (run hugeUpload).state.driverQuotaAdmits batch.intent = false := by
  have htest : (preparing (run hugeUpload) 1).any (fun batch =>
      (run hugeUpload).state.surroundings.driverQuotas.lookup batch.intent.driverId == some ⟨none, none⟩ &&
        validInteger batch.intent.description.plaintextBytes.toNat &&
        !(run hugeUpload).state.driverQuotaAdmits batch.intent) = true := by decide
  obtain ⟨batch, hbatch, htest⟩ := (Option.any_eq_true _ _).mp htest
  simp only [Bool.and_eq_true, beq_iff_eq, Bool.not_eq_true'] at htest
  exact ⟨batch, hbatch, htest.1.1, htest.1.2, htest.2⟩

/-- A driver without limits rejects an upload that its preparation let through. -/
theorem unlimited_driver_rejects :
    ∃ (system : ControlState) (batch : PutPrepareBatch) (next : Option Bool → Handler),
      Reachable prims anyBatch database system ∧ system.threads[1]? = some (.write (.putPrepare batch) next) ∧
        system.state.surroundings.driverQuotas.lookup batch.intent.driverId = some ⟨none, none⟩ ∧
        system.state.driverQuotaAdmits batch.intent = false ∧ ¬system.state.DriverQuotaExact batch.intent := by
  obtain ⟨batch, hbatch, hquota, _, hrejected⟩ := hugeUpload_preparing
  obtain ⟨next, hthread⟩ := preparing_eq_some hbatch
  refine ⟨_, batch, next, reachable_hugeUpload, hthread, hquota, hrejected, ?_⟩
  intro hexact
  obtain ⟨quota, hlookup, hexceeded⟩ := hexact.mp hrejected
  rw [hquota] at hlookup
  cases hlookup
  rcases hexceeded with ⟨_, hlimit, _⟩ | ⟨_, hlimit, _⟩
  · cases hlimit
  · cases hlimit

/-- Two uploads prepared on a driver that has room for their bytes and no more. -/
def limitedUploads : List (Machine.Event Request Database Answer) :=
  setQuota ⟨some 20, none⟩ :: complete 0 (prepareRequest 1 root [97] 0) ++ complete 1 (prepareRequest 2 root [98] 0)

/-- One of the uploads is published, and a third one is rejected. -/
def limitedPublication : List (Machine.Event Request Database Answer) :=
  .request (commitRequest 1) :: advances 2 6 ++ .reply 2 .done :: advances 2 14 ++
    complete 3 (prepareRequest 3 root [99] 0)

theorem reachable_limitedUploads : Reachable prims anyBatch database (run limitedUploads) := by
  apply reachable_any_run
  intro change hmem db
  simp only [limitedUploads, setQuota, complete, advances, List.mem_append, List.mem_cons, List.mem_replicate,
    reduceCtorEq, and_false, or_false, List.cons_append, Machine.Event.become.injEq] at hmem
  rw [hmem]
  exact ⟨_, _, _, rfl⟩

theorem runs_limitedPublication :
    (controlPlane prims).Runs anyBatch (run limitedUploads) (run (limitedUploads ++ limitedPublication)) := by
  apply runs_append
  intro change hmem
  simp only [limitedPublication, complete, advances, List.mem_append, List.mem_cons, List.mem_replicate, reduceCtorEq,
    and_false, or_self, List.cons_append] at hmem

theorem steady_limitedPublication :
    DriverSteady (run limitedUploads).toMoment (run (limitedUploads ++ limitedPublication)).toMoment driverId := by
  have hsteady : ∀ middle : Instant, (run limitedUploads).toMoment.Before middle →
      middle.Before (run (limitedUploads ++ limitedPublication)).toMoment →
        middle.state.now = 100 ∧ middle.state.surroundings.driverQuotas.lookup driverId = some ⟨some 20, none⟩ := by
    intro middle hfirst hlast
    have htest := hfirst.forall_between hlast (fun db => db.now == 100 &&
      db.surroundings.driverQuotas.lookup driverId == some ⟨some 20, none⟩) (by decide +kernel) (by decide +kernel)
    simpa only [Bool.and_eq_true, beq_iff_eq] using htest
  intro earlier later hfirst hbetween hlast
  obtain ⟨hnow, hquota⟩ := hsteady earlier hfirst (hbetween.trans hlast)
  obtain ⟨hnow', hquota'⟩ := hsteady later (hfirst.trans hbetween) hlast
  exact ⟨by rw [hnow, hnow'], by rw [hquota, hquota']⟩

theorem driver_quota_exact_limited :
    ∃ (system later : ControlState) (intent : PutIntentRow), Reachable prims anyBatch database system ∧
      (controlPlane prims).Runs anyBatch system later ∧
      system.state.surroundings.driverQuotas.lookup intent.driverId = some ⟨some 20, none⟩ ∧
      system.state.driverQuotaAdmits intent = false ∧ system.state.DriverQuotaExact intent ∧
      later.state.driverLocations driverId ≠ [] ∧ later.state.DriverWithin driverId := by
  have hexact := driver_quota_exact bootstrapped_database reachable_limitedUploads
  have htest : ((run limitedUploads).state.journal.putIntents.lookup (fresh 10)).any (fun intent =>
      (run limitedUploads).state.surroundings.driverQuotas.lookup intent.driverId == some ⟨some 20, none⟩ &&
        validInteger intent.description.plaintextBytes.toNat &&
        !(run limitedUploads).state.driverQuotaAdmits intent &&
        20 < (run limitedUploads).state.driverUsage intent.driverId + encodedSize intent.description) = true := by
    decide +kernel
  obtain ⟨intent, _, htest⟩ := (Option.any_eq_true _ _).mp htest
  simp only [Bool.and_eq_true, beq_iff_eq, Bool.not_eq_true', decide_eq_true_eq] at htest
  obtain ⟨⟨⟨hquota, hfits⟩, hrejected⟩, hbytes⟩ := htest
  refine ⟨_, _, intent, reachable_limitedUploads, runs_limitedPublication, hquota, hrejected, ?_, by decide +kernel, ?_⟩
  · refine (hexact.1 intent hfits).mpr fun quota hlookup => .inl (.inl ⟨20, ?_, hbytes⟩)
    rw [hquota] at hlookup
    cases hlookup
    rfl
  · refine hexact.2 driverId _ runs_limitedPublication steady_limitedPublication fun quota hlookup hexceeded => ?_
    rw [show (run limitedUploads).state.surroundings.driverQuotas.lookup driverId = some ⟨some 20, none⟩ by
      decide +kernel] at hlookup
    cases hlookup
    rcases hexceeded with ⟨limit, hlimit, hover⟩ | ⟨limit, hlimit, _⟩
    · cases hlimit
      exact absurd hover (by decide +kernel)
    · cases hlimit

end Sample

end Skydriver
