import Skydriver.Lib.Table
import Skydriver.Lib.Tokens
import Skydriver.Integrity.BlockManifest

/-!
# Transfer analytics

A completed transfer is recorded in two steps.  A receipt under its operation identity decides which of several calls
for one operation goes on, and one atomic batch adds the weighted observation to an hourly and a daily row.  Small
transfers are sampled by the last digit of the operation identity and weigh more in exchange.
-/

namespace Skydriver.TransferMetrics

/-! ### Observations -/

def largeTransferBytes : UInt64 := 64 * 1024 * 1024

def sampleModulus : Nat := 10

def maximumDurationMs : UInt64 := 7 * 24 * 60 * 60 * 1000

def maximumRetries : UInt64 := 1000000

def telemetryV1 : Text := utf8 "skydriver.transfer-telemetry.v1"

def telemetryV2 : Text := utf8 "skydriver.transfer-telemetry.v2"

def upload : Text := utf8 "upload"

def download : Text := utf8 "download"

structure TransferTelemetry where
  schema : Text
  providerMs : UInt64
  totalMs : UInt64
  retries : UInt64
  planMs : Option UInt64
  queueMs : Option UInt64
  postProviderMs : Option UInt64

structure TransferIdentity where
  operationId : Text
  direction : Text
  driverId : Text
  tokenId : Text
  directoryId : Text
  encodedBytes : UInt64

structure TransferPhases where
  plan : UInt64
  queue : UInt64
  postProvider : UInt64

def TransferTelemetry.phases (telemetry : TransferTelemetry) : Option TransferPhases := do
  let plan ← telemetry.planMs
  let queue ← telemetry.queueMs
  let postProvider ← telemetry.postProviderMs
  return ⟨plan, queue, postProvider⟩

def valid (value : TransferTelemetry) : Bool :=
  (value.schema == telemetryV1 || value.schema == telemetryV2) && decide (0 < value.providerMs) &&
    decide (value.providerMs ≤ value.totalMs) && decide (value.totalMs ≤ maximumDurationMs) &&
    decide (value.retries ≤ maximumRetries) &&
    if value.schema = telemetryV1 then value.planMs.isNone && value.queueMs.isNone && value.postProviderMs.isNone
    else if value.schema = telemetryV2 then
      value.phases.any fun phases =>
        (((checkedAdd phases.plan.toNat phases.queue.toNat).bind fun total =>
          checkedAdd total value.providerMs.toNat).bind fun total =>
            checkedAdd total phases.postProvider.toNat).any fun total => total ≤ value.totalMs.toNat
    else false

/-- `char::to_digit(16)` of the character with this code. -/
def toDigit (byte : UInt8) : Option Nat :=
  if 0x30 ≤ byte ∧ byte ≤ 0x39 then some (byte.toNat - 0x30)
  else if 0x61 ≤ byte ∧ byte ≤ 0x66 then some (byte.toNat - 0x61 + 10)
  else if 0x41 ≤ byte ∧ byte ≤ 0x46 then some (byte.toNat - 0x41 + 10)
  else none

def sampleWeight (operationId : Text) (bytes : UInt64) : Nat :=
  if largeTransferBytes ≤ bytes then 1
  else if (operationId.getLast?.bind toDigit).any fun value => value % sampleModulus == 0 then sampleModulus
  else 0

def speedBucket (bytes milliseconds : UInt64) : Fin 12 :=
  let bytesPerSecond := min (bytes.toNat * 1000) (2 ^ 64 - 1) / max milliseconds.toNat 1
  let units := bytesPerSecond / (128 * 1024)
  if units = 0 then 0 else ⟨min (units.log2 + 1) 11, by omega⟩

structure WeightedObservation where
  bytes : Nat
  provider : Nat
  total : Nat
  retries : Nat
  phaseTransfers : Nat
  plan : Nat
  queue : Nat
  phaseProvider : Nat
  postProvider : Nat

def weightedObservation (identity : TransferIdentity) (telemetry : TransferTelemetry) (weight : Nat) :
    Option WeightedObservation := do
  let phases := if identity.direction = download then telemetry.phases else none
  let provider ← checkedMul telemetry.providerMs.toNat weight
  let bytes ← checkedMul identity.encodedBytes.toNat weight
  let total ← checkedMul telemetry.totalMs.toNat weight
  let retries ← checkedMul telemetry.retries.toNat weight
  let weighted : WeightedObservation :=
    { bytes
      provider
      total
      retries
      phaseTransfers := if phases.isSome then weight else 0
      plan := (phases.bind fun value => checkedMul value.plan.toNat weight).getD 0
      queue := (phases.bind fun value => checkedMul value.queue.toNat weight).getD 0
      phaseProvider := if phases.isSome then provider else 0
      postProvider := (phases.bind fun value => checkedMul value.postProvider.toNat weight).getD 0 }
  if [weight, weighted.bytes, weighted.provider, weighted.total, weighted.retries, weighted.phaseTransfers,
      weighted.plan, weighted.queue, weighted.phaseProvider, weighted.postProvider].all fun value => value < 2 ^ 63 then
    some weighted
  else none

/-! ### Tables -/

/-- The counting columns of an analytics row. -/
inductive Counter where
  | transfers
  | bytes
  | providerMs
  | totalMs
  | retries
  | phaseTransfers
  | planMs
  | queueMs
  | postProviderMs
  | phaseProviderMs
  | speed (bucket : Fin 12)
deriving DecidableEq, Fintype

structure AnalyticsKey where
  bucket : Nat
  driverId : Text
  tokenId : Text
  directoryId : Text
  direction : Text
deriving DecidableEq

structure AnalyticsRow where
  counters : Counter → Nat
  updatedAt : Nat

/-- The receipts with their times, and the two analytics tables. -/
structure Metrics where
  receipts : Table Text Nat
  hourly : Table AnalyticsKey AnalyticsRow
  daily : Table AnalyticsKey AnalyticsRow

/-- What the statements of a rollup batch are bound to. -/
structure Rollup where
  identity : TransferIdentity
  weight : Nat
  weighted : WeightedObservation
  bucket : Fin 12
  now : UInt64

def Rollup.key (rollup : Rollup) (bucketSeconds : Nat) : AnalyticsKey :=
  ⟨rollup.now.toNat - rollup.now.toNat % bucketSeconds, rollup.identity.driverId, rollup.identity.tokenId,
    rollup.identity.directoryId, rollup.identity.direction⟩

/-- The row to insert; speed columns that are not named default to zero. -/
def Rollup.excluded (rollup : Rollup) : AnalyticsRow where
  counters
    | .transfers => rollup.weight
    | .bytes => rollup.weighted.bytes
    | .providerMs => rollup.weighted.provider
    | .totalMs => rollup.weighted.total
    | .retries => rollup.weighted.retries
    | .phaseTransfers => rollup.weighted.phaseTransfers
    | .planMs => rollup.weighted.plan
    | .queueMs => rollup.weighted.queue
    | .postProviderMs => rollup.weighted.postProvider
    | .phaseProviderMs => rollup.weighted.phaseProvider
    | .speed bucket => if bucket = rollup.bucket then rollup.weight else 0
  updatedAt := rollup.now.toNat

/-- The columns that the `DO UPDATE` clause adds to. -/
def Rollup.updates (rollup : Rollup) : Counter → Bool
  | .speed bucket => bucket == rollup.bucket
  | _ => true

def Rollup.update (rollup : Rollup) (row : AnalyticsRow) : AnalyticsRow where
  counters counter :=
    if rollup.updates counter then row.counters counter + rollup.excluded.counters counter else row.counters counter
  updatedAt := rollup.excluded.updatedAt

/-- The CHECK constraints of an analytics table, and that its integers have 63 bits. -/
def AnalyticsRow.check (bucketSeconds : Nat) (key : AnalyticsKey) (row : AnalyticsRow) : Bool :=
  decide (0 < key.bucket) && key.bucket % bucketSeconds == 0 &&
    (key.direction == upload || key.direction == download) && decide (0 < row.counters .transfers) &&
    decide (0 < row.counters .providerMs) && decide (0 < row.counters .totalMs) &&
    decide (key.bucket ≤ row.updatedAt) && decide (row.updatedAt < 2 ^ 63) &&
    decide (∀ counter, row.counters counter < 2 ^ 63)

/-- The upsert of one analytics table; none if a constraint fails. -/
def upsert (bucketSeconds : Nat) (rollup : Rollup) (table : Table AnalyticsKey AnalyticsRow) :
    Option (Table AnalyticsKey AnalyticsRow) :=
  let key := rollup.key bucketSeconds
  if rollup.excluded.check bucketSeconds key then
    match table.lookup key with
    | none => some (table.insert key rollup.excluded)
    | some row =>
        if (rollup.update row).check bucketSeconds key then some (table.insert key (rollup.update row)) else none
  else none

inductive Batch where
  | receipt (operationId : Text) (now : UInt64)
  | rollup (rollup : Rollup)

/-- One batch of the database, with the number of changes of its first statement; none if it is rolled back. -/
def execute : Batch → Metrics → Option (Metrics × Nat)
  | .receipt operationId now, metrics =>
      if 0 < now.toNat ∧ now.toNat < 2 ^ 63 then
        match metrics.receipts.lookup operationId with
        | some _ => some (metrics, 0)
        | none => some ({ metrics with receipts := metrics.receipts.insert operationId now.toNat }, 1)
      else none
  | .rollup rollup, metrics => do
      let hourly ← upsert 3600 rollup metrics.hourly
      let daily ← upsert 86400 rollup metrics.daily
      return ({ metrics with hourly, daily }, 1)

/-! ### Recording -/

inductive RecordError where
  | database

abbrev Recorder := Program Metrics Batch Nat Empty Empty (Except RecordError Unit)

def record (identity : TransferIdentity) (telemetry : Option TransferTelemetry) (now : UInt64) : Recorder :=
  match telemetry.filter valid with
  | none => .done (.ok ())
  | some telemetry =>
      let weight := sampleWeight identity.operationId identity.encodedBytes
      if weight = 0 then .done (.ok ())
      else if ¬(identity.direction = upload ∨ identity.direction = download) then .done (.ok ())
      else
        match weightedObservation identity telemetry weight with
        | none => .done (.ok ())
        | some weighted =>
            .write (.receipt identity.operationId now) fun
              | none => .done (.error .database)
              | some inserted =>
                  if inserted ≠ 1 then .done (.ok ())
                  else
                    let bucket := speedBucket identity.encodedBytes telemetry.providerMs
                    .write (.rollup ⟨identity, weight, weighted, bucket, now⟩) fun
                      | none => .done (.error .database)
                      | some _ => .done (.ok ())

/-- Any number of calls, for any operations and at any time; nothing is deleted. -/
def recording : Machine Metrics Batch Nat Empty Empty (Except RecordError Unit) where
  execute := execute
  starts program := ∃ identity telemetry now, program = record identity telemetry now
  drift _ _ := False

/-! ### One contribution an operation -/

def Batch.observation : Batch → Option Rollup
  | .receipt _ _ => none
  | .rollup added => some added

/-- The observations that have been added to the tables, in their order. -/
def contributions (moment : Moment Metrics Batch) : List Rollup :=
  moment.trace.filterMap fun step => step.1.bind Batch.observation

theorem contributions_advance (moment : Moment Metrics Batch) (batch : Batch) (after : Metrics) :
    contributions (moment.advance (some batch) after) = contributions moment ++ batch.observation.toList := by
  rw [contributions, contributions, Moment.advance, List.filterMap_append]
  cases batch with
  | receipt operationId now => rfl
  | rollup rollup => rfl

/-- A rollup for one operation costs the right to it, -/
def cost (operationId : Text) (batch : Batch) : Nat :=
  (batch.observation.map fun rollup => if rollup.identity.operationId = operationId then 1 else 0).getD 0

/-- which the insertion of its receipt grants. -/
def grant (operationId : Text) : Batch → Nat → Nat
  | .receipt found _, inserted => if found = operationId ∧ inserted = 1 then 1 else 0
  | .rollup _, _ => 0

theorem cost_receipt (operationId found : Text) (now : UInt64) : cost operationId (.receipt found now) = 0 := rfl

theorem cost_rollup (operationId : Text) (rollup : Rollup) :
    cost operationId (.rollup rollup) = if rollup.identity.operationId = operationId then 1 else 0 := rfl

theorem spent_eq_count (operationId : Text) (moment : Moment Metrics Batch) :
    moment.spent (cost operationId) =
      ((contributions moment).map fun rollup => rollup.identity.operationId).count operationId := by
  rw [Moment.spent, contributions]
  induction moment.trace with
  | nil => rfl
  | cons step steps ih =>
      rw [List.map_cons, List.sum_cons, ih]
      obtain ⟨cause, before⟩ := step
      cases cause with
      | none => simp
      | some batch =>
          cases batch with
          | receipt found now =>
              rw [List.filterMap_cons_none rfl, Option.map_some, Option.getD_some, cost_receipt, Nat.zero_add]
          | rollup rollup =>
              have hkeep : ((some (Batch.rollup rollup), before) :: steps).filterMap
                  (fun step => step.1.bind Batch.observation) =
                    rollup :: steps.filterMap fun step => step.1.bind Batch.observation := rfl
              rw [hkeep, List.map_cons, List.count_cons, Option.map_some, Option.getD_some, cost_rollup, Nat.add_comm]
              simp only [beq_iff_eq]

theorem record_affords (operationId : Text) (identity : TransferIdentity) (telemetry : Option TransferTelemetry)
    (now : UInt64) : (record identity telemetry now).Affords (cost operationId) (grant operationId) 0 := by
  unfold record
  split
  · trivial
  · dsimp only
    split_ifs
    · trivial
    · split
      · trivial
      · refine ⟨le_rfl, trivial, ?_⟩
        intro inserted
        dsimp only
        split_ifs with hinserted
        · trivial
        · refine ⟨?_, trivial, fun _ => trivial⟩
          rw [not_not] at hinserted
          simp [cost_rollup, cost_receipt, grant, hinserted]
    · trivial

/-- Whether the receipt of an operation is there. -/
def supply (operationId : Text) (metrics : Metrics) : Nat :=
  if (metrics.receipts.lookup operationId).isSome then 1 else 0

theorem supply_execute (operationId : Text) (batch : Batch) (metrics after : Metrics) (inserted : Nat)
    (h : execute batch metrics = some (after, inserted)) :
    supply operationId metrics + grant operationId batch inserted ≤ supply operationId after := by
  cases batch with
  | receipt found now =>
      rw [execute] at h
      split_ifs at h with htime
      cases hreceipt : metrics.receipts.lookup found with
      | some time =>
          rw [hreceipt, Option.some.injEq, Prod.mk.injEq] at h
          obtain ⟨rfl, rfl⟩ := h
          simp [grant]
      | none =>
          rw [hreceipt, Option.some.injEq, Prod.mk.injEq] at h
          obtain ⟨rfl, rfl⟩ := h
          by_cases hfound : found = operationId
          · subst hfound
            simp [supply, grant, hreceipt]
          · simp [supply, grant, hfound, Ne.symm hfound]
  | rollup rollup =>
      rw [execute] at h
      simp only [Option.bind_eq_bind, Option.bind_eq_some_iff, Option.pure_def, Option.some.injEq,
        Prod.mk.injEq] at h
      obtain ⟨hourly, _, daily, _, rfl, _⟩ := h
      simp [supply, grant]

theorem contributions_nodup {permit : Moment Metrics Batch → Batch → Prop} {start : Metrics}
    {system : System Metrics Batch Nat Empty Empty (Except RecordError Unit)}
    (hrun : recording.Runs permit (Machine.initial start) system) :
    ((contributions system.toMoment).map fun rollup => rollup.identity.operationId).Nodup := by
  rw [List.nodup_iff_count_le_one]
  intro operationId
  rw [← spent_eq_count]
  have hspent : system.toMoment.spent (cost operationId) ≤ supply operationId system.state := by
    have hstarts : ∀ program, recording.starts program → program.Affords (cost operationId) (grant operationId) 0 := by
      intro program hstart
      obtain ⟨identity, telemetry, now, rfl⟩ := hstart
      exact record_affords operationId identity telemetry now
    apply Machine.spent_le_supply hstarts _ _ hrun
    · intro state after hdrift
      exact hdrift.elim
    · exact supply_execute operationId
  have hone : supply operationId system.state ≤ 1 := by
    rw [supply]
    split_ifs
    · exact le_rfl
    · exact Nat.zero_le 1
  exact hspent.trans hone

/-! ### What the tables hold -/

/-- The value of a counter in the row under a key, zero if there is none. -/
def counterAt (table : Table AnalyticsKey AnalyticsRow) (key : AnalyticsKey) (counter : Counter) : Nat :=
  ((table.lookup key).map fun row => row.counters counter).getD 0

def AnalyticsKey.day (key : AnalyticsKey) : AnalyticsKey := { key with bucket := key.bucket - key.bucket % 86400 }

def dayTotal (hourly : Table AnalyticsKey AnalyticsRow) (day : AnalyticsKey) (counter : Counter) : Nat :=
  hourly.total fun key row => if key.day = day then row.counters counter else 0

/-- Every transfer of the row is in one of its speed buckets. -/
def AnalyticsRow.Sorted (row : AnalyticsRow) : Prop :=
  ∑ bucket, row.counters (.speed bucket) = row.counters .transfers

def added (bucketSeconds : Nat) (rollups : List Rollup) (key : AnalyticsKey) (counter : Counter) : Nat :=
  (rollups.map fun rollup => if rollup.key bucketSeconds = key then rollup.excluded.counters counter else 0).sum

theorem added_append (bucketSeconds : Nat) (earlier : List Rollup) (rollup : Rollup) (key : AnalyticsKey)
    (counter : Counter) :
    added bucketSeconds (earlier ++ [rollup]) key counter = added bucketSeconds earlier key counter +
      if rollup.key bucketSeconds = key then rollup.excluded.counters counter else 0 := by
  simp [added]

theorem Rollup.key_day (rollup : Rollup) : (rollup.key 3600).day = rollup.key 86400 := by
  rw [AnalyticsKey.day, Rollup.key, Rollup.key]
  dsimp only
  congr 1
  omega

/-- The speed columns that the update leaves out are those to which the inserted row has nothing to add. -/
theorem Rollup.counters_update (rollup : Rollup) (row : AnalyticsRow) (counter : Counter) :
    (rollup.update row).counters counter = row.counters counter + rollup.excluded.counters counter := by
  rw [Rollup.update]
  dsimp only
  split_ifs with hupdates
  · rfl
  · cases counter with
    | speed bucket =>
        rw [Rollup.updates, beq_iff_eq] at hupdates
        rw [Rollup.excluded]
        dsimp only
        rw [if_neg hupdates, Nat.add_zero]
    | _ => exact absurd rfl hupdates

theorem Rollup.sorted_excluded (rollup : Rollup) : rollup.excluded.Sorted := by
  rw [AnalyticsRow.Sorted, Rollup.excluded]
  dsimp only
  rw [Finset.sum_ite_eq' Finset.univ rollup.bucket, if_pos (Finset.mem_univ _)]

theorem Rollup.sorted_update (rollup : Rollup) {row : AnalyticsRow} (h : row.Sorted) : (rollup.update row).Sorted := by
  have hexcluded := rollup.sorted_excluded
  rw [AnalyticsRow.Sorted] at h hexcluded ⊢
  simp only [rollup.counters_update]
  rw [Finset.sum_add_distrib, h, hexcluded]

theorem upsert_cases {bucketSeconds : Nat} {rollup : Rollup} {table after : Table AnalyticsKey AnalyticsRow}
    (h : upsert bucketSeconds rollup table = some after) :
    (table.lookup (rollup.key bucketSeconds) = none ∧
      after = table.insert (rollup.key bucketSeconds) rollup.excluded) ∨
    ∃ row, table.lookup (rollup.key bucketSeconds) = some row ∧
      after = table.insert (rollup.key bucketSeconds) (rollup.update row) := by
  rw [upsert] at h
  split_ifs at h with hcheck
  cases hrow : table.lookup (rollup.key bucketSeconds) with
  | none =>
      rw [hrow, Option.some.injEq] at h
      exact .inl ⟨rfl, h.symm⟩
  | some row =>
      simp only [hrow] at h
      split_ifs at h with hupdated
      exact .inr ⟨row, rfl, (Option.some.inj h).symm⟩

theorem upsert_counterAt {bucketSeconds : Nat} {rollup : Rollup} {table after : Table AnalyticsKey AnalyticsRow}
    (h : upsert bucketSeconds rollup table = some after) (key : AnalyticsKey) (counter : Counter) :
    counterAt after key counter = counterAt table key counter +
      if rollup.key bucketSeconds = key then rollup.excluded.counters counter else 0 := by
  rcases upsert_cases h with ⟨hnone, rfl⟩ | ⟨row, hrow, rfl⟩
  · rw [counterAt, counterAt, Table.lookup_insert_eq]
    by_cases hkey : key = rollup.key bucketSeconds
    · subst hkey
      simp [hnone]
    · rw [if_neg hkey, if_neg (Ne.symm hkey), Nat.add_zero]
  · rw [counterAt, counterAt, Table.lookup_insert_eq]
    by_cases hkey : key = rollup.key bucketSeconds
    · subst hkey
      simp [hrow, rollup.counters_update]
    · rw [if_neg hkey, if_neg (Ne.symm hkey), Nat.add_zero]

theorem upsert_sorted {bucketSeconds : Nat} {rollup : Rollup} {table after : Table AnalyticsKey AnalyticsRow}
    (h : upsert bucketSeconds rollup table = some after)
    (hsorted : ∀ key row, table.lookup key = some row → row.Sorted) (key : AnalyticsKey) (row : AnalyticsRow)
    (hrow : after.lookup key = some row) : row.Sorted := by
  rcases upsert_cases h with ⟨_, rfl⟩ | ⟨old, hold, rfl⟩
  · rw [Table.lookup_insert_eq] at hrow
    split_ifs at hrow with hkey
    · cases hrow
      exact rollup.sorted_excluded
    · exact hsorted key row hrow
  · rw [Table.lookup_insert_eq] at hrow
    split_ifs at hrow with hkey
    · cases hrow
      exact rollup.sorted_update (hsorted _ old hold)
    · exact hsorted key row hrow

theorem upsert_dayTotal {rollup : Rollup} {hourly after : Table AnalyticsKey AnalyticsRow}
    (h : upsert 3600 rollup hourly = some after) (day : AnalyticsKey) (counter : Counter) :
    dayTotal after day counter = dayTotal hourly day counter +
      if rollup.key 86400 = day then rollup.excluded.counters counter else 0 := by
  rw [dayTotal, dayTotal, ← rollup.key_day]
  rcases upsert_cases h with ⟨hnone, rfl⟩ | ⟨row, hrow, rfl⟩
  · rw [Table.total_insert_of_none hnone, Nat.add_comm]
  · have htotal := Table.total_insert_of_some hrow (rollup.update row)
      fun key row => if key.day = day then row.counters counter else 0
    rw [rollup.counters_update] at htotal
    split_ifs at htotal ⊢ with hday
    · omega
    · omega

/-- Both tables hold what has been added to them, hour by hour and day by day. -/
structure Accounted (moment : Moment Metrics Batch) : Prop where
  hourly : ∀ key counter, counterAt moment.state.hourly key counter = added 3600 (contributions moment) key counter
  daily : ∀ key counter, counterAt moment.state.daily key counter = added 86400 (contributions moment) key counter
  days : ∀ day counter, counterAt moment.state.daily day counter = dayTotal moment.state.hourly day counter
  hourlySorted : ∀ key row, moment.state.hourly.lookup key = some row → row.Sorted
  dailySorted : ∀ key row, moment.state.daily.lookup key = some row → row.Sorted

theorem accounted_initial (receipts : Table Text Nat) : Accounted ⟨⟨receipts, ∅, ∅⟩, []⟩ where
  hourly _ _ := rfl
  daily _ _ := rfl
  days _ _ := rfl
  hourlySorted _ _ hrow := by simp at hrow
  dailySorted _ _ hrow := by simp at hrow

theorem accounted_execute {moment : Moment Metrics Batch} {batch : Batch} {after : Metrics} {inserted : Nat}
    (h : Accounted moment) (hexecute : execute batch moment.state = some (after, inserted)) :
    Accounted (moment.advance (some batch) after) := by
  cases batch with
  | receipt operationId now =>
      have hcontributions : contributions (moment.advance (some (.receipt operationId now)) after) =
          contributions moment := by
        rw [contributions_advance]
        exact List.append_nil _
      have htables : after.hourly = moment.state.hourly ∧ after.daily = moment.state.daily := by
        rw [execute] at hexecute
        split_ifs at hexecute with htime
        split at hexecute
        · cases hexecute
          exact ⟨rfl, rfl⟩
        · cases hexecute
          exact ⟨rfl, rfl⟩
      obtain ⟨hhourly, hdaily⟩ := htables
      constructor
      · rw [hcontributions]
        exact hhourly ▸ h.hourly
      · rw [hcontributions]
        exact hdaily ▸ h.daily
      · exact hhourly ▸ hdaily ▸ h.days
      · exact hhourly ▸ h.hourlySorted
      · exact hdaily ▸ h.dailySorted
  | rollup rollup =>
      have hcontributions : contributions (moment.advance (some (.rollup rollup)) after) =
          contributions moment ++ [rollup] := contributions_advance _ _ _
      rw [execute] at hexecute
      simp only [Option.bind_eq_bind, Option.bind_eq_some_iff, Option.pure_def, Option.some.injEq,
        Prod.mk.injEq] at hexecute
      obtain ⟨hourly, hhourly, daily, hdaily, rfl, _⟩ := hexecute
      constructor
      · intro key counter
        rw [hcontributions, added_append, ← h.hourly key counter]
        exact upsert_counterAt hhourly key counter
      · intro key counter
        rw [hcontributions, added_append, ← h.daily key counter]
        exact upsert_counterAt hdaily key counter
      · intro day counter
        have htotal := upsert_dayTotal hhourly day counter
        have hcounter := upsert_counterAt hdaily day counter
        rw [h.days day counter] at hcounter
        exact hcounter.trans htotal.symm
      · exact upsert_sorted hhourly h.hourlySorted
      · exact upsert_sorted hdaily h.dailySorted

/-! ### Weights of 63 bits -/

/-- Every value that the observation adds has 63 bits. -/
def Rollup.Bounded (rollup : Rollup) : Prop := ∀ counter, rollup.excluded.counters counter < 2 ^ 63

theorem weightedObservation_bounded {identity : TransferIdentity} {telemetry : TransferTelemetry} {weight : Nat}
    {weighted : WeightedObservation} (h : weightedObservation identity telemetry weight = some weighted)
    (bucket : Fin 12) (now : UInt64) : Rollup.Bounded ⟨identity, weight, weighted, bucket, now⟩ := by
  rw [weightedObservation] at h
  obtain ⟨provider, _, h⟩ := Option.bind_eq_some_iff.mp h
  obtain ⟨bytes, _, h⟩ := Option.bind_eq_some_iff.mp h
  obtain ⟨total, _, h⟩ := Option.bind_eq_some_iff.mp h
  obtain ⟨retries, _, h⟩ := Option.bind_eq_some_iff.mp h
  dsimp only at h
  obtain ⟨hall, h⟩ := Option.ite_none_right_eq_some.mp h
  cases h
  simp only [List.all_cons, List.all_nil, Bool.and_true, Bool.and_eq_true, decide_eq_true_eq] at hall
  obtain ⟨hweight, hbytes, hprovider, htotal, hretries, hphases, hplan, hqueue, hphaseProvider, hpost⟩ := hall
  intro counter
  cases counter with
  | transfers => exact hweight
  | bytes => exact hbytes
  | providerMs => exact hprovider
  | totalMs => exact htotal
  | retries => exact hretries
  | phaseTransfers => exact hphases
  | planMs => exact hplan
  | queueMs => exact hqueue
  | postProviderMs => exact hpost
  | phaseProviderMs => exact hphaseProvider
  | speed found =>
      rw [Rollup.excluded]
      dsimp only
      split_ifs
      · exact hweight
      · exact Nat.two_pow_pos 63

/-- So it is for everything that has been added. -/
def Bounded (moment : Moment Metrics Batch) : Prop := ∀ rollup ∈ contributions moment, rollup.Bounded

def submits (batch : Batch) (_ : Moment Metrics Batch) : Prop :=
  match batch with
  | .receipt _ _ => True
  | .rollup added => added.Bounded

theorem record_promises (identity : TransferIdentity) (telemetry : Option TransferTelemetry) (now : UInt64)
    (moment : Moment Metrics Batch) :
    (record identity telemetry now).Promises submits (fun _ _ => True) (fun _ _ => True) moment := by
  unfold record
  split
  · trivial
  · dsimp only
    split_ifs
    · trivial
    · split
      · trivial
      · rename_i weighted hweighted
        intro later _
        refine ⟨trivial, ?_⟩
        intro reply
        cases reply with
        | none => trivial
        | some inserted =>
            dsimp only
            split_ifs with hinserted
            · trivial
            · intro last _
              refine ⟨weightedObservation_bounded hweighted _ _, ?_⟩
              intro reply
              cases reply with
              | none => trivial
              | some _ => trivial
    · trivial

/-! ### Runs -/

variable {permit : Moment Metrics Batch → Batch → Prop}
  {system : System Metrics Batch Nat Empty Empty (Except RecordError Unit)}

theorem accounted_of_runs {receipts : Table Text Nat}
    (hrun : recording.Runs permit (Machine.initial ⟨receipts, ∅, ∅⟩) system) : Accounted system.toMoment := by
  apply Machine.invariant _ _ (accounted_initial receipts) hrun
  · intro moment after _ hdrift
    exact hdrift.elim
  · intro moment batch after inserted haccounted _ hexecute
    exact accounted_execute haccounted hexecute

theorem bounded_of_runs {start : Metrics} (hrun : recording.Runs permit (Machine.initial start) system) :
    Bounded system.toMoment := by
  have hstarts : ∀ program, recording.starts program → ∀ moment,
      program.Promises submits (fun _ _ => True) (fun _ _ => True) moment := by
    intro program hstart moment
    obtain ⟨identity, telemetry, now, rfl⟩ := hstart
    exact record_promises identity telemetry now moment
  apply Machine.guarded_invariant hstarts _ _ _ hrun
  · intro moment after _ hdrift
    exact hdrift.elim
  · intro moment batch after inserted hearlier hguard _ _ rollup hmem
    rw [contributions_advance, List.mem_append] at hmem
    rcases hmem with hold | hnew
    · exact hearlier rollup hold
    · cases batch with
      | receipt operationId now => cases hnew
      | rollup added =>
          rw [Batch.observation, Option.toList_some, List.mem_singleton] at hnew
          exact hnew ▸ hguard
  · intro rollup hmem
    cases hmem

/-! ### Sampling -/

/-- The operation identity with these hexadecimal digits. -/
def operationId {length : Nat} (digits : Fin length → Fin 16) : Text := List.ofFn fun index => hexDigit (digits index)

theorem sampleWeight_operationId {length : Nat} (digits : Fin (length + 1) → Fin 16) (bytes : UInt64) :
    sampleWeight (operationId digits) bytes = sampleWeight [hexDigit (digits (Fin.last length))] bytes := by
  have hlast : (operationId digits).getLast? = some (hexDigit (digits (Fin.last length))) := by
    rw [operationId, List.ofFn_succ', List.concat_eq_append, List.getLast?_concat]
  rw [sampleWeight, sampleWeight, hlast, List.getLast?_singleton]

theorem sum_last_digits {bytes : UInt64} (hbytes : bytes < largeTransferBytes) :
    ∑ digit : Fin 16, sampleWeight [hexDigit digit] bytes = 20 := by
  have hsmall : ¬largeTransferBytes ≤ bytes := UInt64.not_le.mpr hbytes
  have hdigits : ∀ digit : Fin 16, sampleWeight [hexDigit digit] bytes =
      if digit = 0 ∨ digit = 10 then sampleModulus else 0 := by
    intro digit
    rw [sampleWeight, if_neg hsmall]
    congr 1
    revert digit
    decide
  simp only [hdigits]
  decide

theorem sum_sampleWeight (length : Nat) (bytes : UInt64) :
    ∑ digits : Fin (length + 1) → Fin 16, sampleWeight (operationId digits) bytes =
      if largeTransferBytes ≤ bytes then 16 ^ (length + 1) else 20 * 16 ^ length := by
  split_ifs with hlarge
  · have hone : ∀ digits : Fin (length + 1) → Fin 16, sampleWeight (operationId digits) bytes = 1 := by
      intro digits
      rw [sampleWeight, if_pos hlarge]
    simp only [hone]
    simp
  · have hsmall : bytes < largeTransferBytes := UInt64.not_le.mp hlarge
    calc ∑ digits : Fin (length + 1) → Fin 16, sampleWeight (operationId digits) bytes
        = ∑ digits : Fin (length + 1) → Fin 16, sampleWeight [hexDigit (digits (Fin.last length))] bytes := by
          apply Finset.sum_congr rfl
          intro digits _
          exact sampleWeight_operationId digits bytes
      _ = ∑ split : Fin 16 × (Fin length → Fin 16), sampleWeight [hexDigit split.1] bytes := by
          apply Fintype.sum_equiv (Fin.snocEquiv fun _ => Fin 16).symm
          intro digits
          rfl
      _ = 20 * 16 ^ length := by
          rw [Fintype.sum_prod_type]
          simp only [Finset.sum_const, Finset.card_univ, Fintype.card_pi, Fintype.card_fin, Finset.prod_const, smul_eq_mul]
          rw [← Finset.mul_sum, sum_last_digits hsmall, Nat.mul_comm]

theorem operationId_injective (length : Nat) : Function.Injective (@operationId length) := by
  have hdigit : Function.Injective fun digit : Fin 16 => hexDigit digit := by decide
  intro left right heq
  funext index
  exact hdigit (congrFun (List.ofFn_injective heq) index)

/-- The lowercase hexadecimal operation identities of one length. -/
def hexadecimalIds (length : Nat) : Finset Text := Finset.univ.image (@operationId length)

/-! ### Transfer analytics -/

/-- However calls interleave, repeat and fail, an operation contributes at most once, to both tables alike, and what it
contributes has 63 bits.  Sampling is neutral only where nothing is sampled. -/
theorem transferAnalytics {receipts : Table Text Nat}
    {system : System Metrics Batch Nat Empty Empty (Except RecordError Unit)}
    (hrun : recording.Runs (fun _ _ => True) (Machine.initial ⟨receipts, ∅, ∅⟩) system) {length : Nat} (bytes : UInt64)
    (hlength : 0 < length) :
    (((contributions system.toMoment).map fun rollup => rollup.identity.operationId).Nodup ∧
      Accounted system.toMoment ∧ Bounded system.toMoment) ∧
    (∑ id ∈ hexadecimalIds length, sampleWeight id bytes = 16 ^ length ↔ largeTransferBytes ≤ bytes) := by
  constructor
  · exact ⟨contributions_nodup hrun, accounted_of_runs hrun, bounded_of_runs hrun⟩
  · obtain ⟨length, rfl⟩ := Nat.exists_eq_add_one.mpr hlength
    rw [hexadecimalIds, Finset.sum_image (operationId_injective _).injOn, sum_sampleWeight]
    split_ifs with hlarge
    · exact ⟨fun _ => hlarge, fun _ => rfl⟩
    · have hpositive : 0 < 16 ^ length := Nat.pow_pos (by decide)
      rw [Nat.pow_succ]
      exact ⟨fun heq => by omega, fun h => absurd h hlarge⟩

def smallDownload : TransferIdentity × Option TransferTelemetry × UInt64 :=
  (⟨utf8 "0", download, utf8 "driver", utf8 "token", utf8 "directory", 1⟩,
    some ⟨telemetryV1, 1, 1, 0, none, none, none⟩, 1000000)

/-- Two calls for one operation, of which the second comes between the two steps of the first. -/
def retriedCalls : System Metrics Batch Nat Empty Empty (Except RecordError Unit) :=
  recording.performAll (fun call => record call.1 call.2.1 call.2.2) (Machine.initial ⟨∅, ∅, ∅⟩)
    [.request smallDownload, .request smallDownload, .advance 0, .advance 1, .advance 0]

theorem transferAnalytics_retried :
    (contributions retriedCalls.toMoment).length = 1 ∧
      ((contributions retriedCalls.toMoment).map fun rollup => rollup.identity.operationId).Nodup ∧
      Accounted retriedCalls.toMoment ∧ Bounded retriedCalls.toMoment ∧
      ∑ id ∈ hexadecimalIds 1, sampleWeight id 1 ≠ 16 ^ 1 := by
  have hrun : recording.Runs (fun _ _ => True) (Machine.initial ⟨∅, ∅, ∅⟩) retriedCalls := by
    have hpermitted : ∀ (moment : Moment Metrics Batch) (batch : Batch), (fun _ _ => true) moment batch = true → True :=
      fun _ _ _ => trivial
    apply Machine.runs_performAll _ hpermitted
    · intro change hmem
      simp at hmem
    · exact Machine.performsOnly_of_forall (fun _ _ => rfl) _ _
    · exact .refl
    · exact fun call => ⟨call.1, call.2.1, call.2.2, rfl⟩
  obtain ⟨⟨honce, haccounted, hbounded⟩, hsampled⟩ := transferAnalytics hrun 1 Nat.one_pos
  refine ⟨by decide +kernel, honce, haccounted, hbounded, ?_⟩
  intro heq
  exact absurd (hsampled.mp heq) (by decide)

/-- The sixteen operation identities of one digit weigh twenty together. -/
theorem sampleWeight_one_digit : 1 < largeTransferBytes ∧ ∑ id ∈ hexadecimalIds 1, sampleWeight id 1 ≠ 16 ^ 1 := by
  constructor
  · decide
  · rw [hexadecimalIds, Finset.sum_image (operationId_injective 1).injOn, sum_sampleWeight]
    decide

end Skydriver.TransferMetrics
