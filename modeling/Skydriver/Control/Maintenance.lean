import Skydriver.Control.Leases

/-!
# How far maintenance gets with abandoned uploads

A pass opens delete tasks for the oldest abandoned uploads.  It takes its window before it leaves out those that have a
task already, and an upload stays in the table as evidence after its task is opened, so on an unchanging table every
pass takes the same window.  The first pass serves what the window holds, and no later pass serves anything.
-/

namespace Skydriver

/-! ### What maintenance is to reach -/

/-- Expired and abandoned put intents with upload evidence and no receipt, each with the time it expires. -/
def Database.abandonedUploads (db : Database) : List (Nat × Identity) :=
  db.journal.putIntents.entries.filterMap fun row =>
    if (row.2.state = .expired ∨ row.2.state = .abandoned) ∧ (db.journal.uploadEvidence.lookup row.1).isSome ∧
        (db.journal.putReceipts.lookup row.1).isNone then some (row.2.expiresAt, row.1) else none

/-- The put has a delete task; the primary key of the table leaves room for one only. -/
def Database.hasPutTask (db : Database) (id : Identity) : Bool := (db.lifecycle.putTasks.lookup id).isSome

/-- Abandoned uploads that have no delete task yet. -/
def Database.unserved (db : Database) : List Identity :=
  (db.abandonedUploads.map Prod.snd).filter fun id => !db.hasPutTask id

/-- No put intent is due to expire. -/
def Database.Quiet (db : Database) (now : Nat) : Prop :=
  ∀ id intent, db.journal.putIntents.lookup id = some intent → intent.state = .prepared → now < intent.expiresAt

/-- `vfs_put_intents.driver_id REFERENCES driver_instances`. -/
def Database.IntentsDriven (db : Database) : Prop :=
  ∀ id intent, db.journal.putIntents.lookup id = some intent →
    (db.surroundings.drivers.lookup intent.driverId).isSome

/-- A number of maintenance passes, with no other changes. -/
inductive Maintained : Nat → Database → Database → Prop where
  | none (db : Database) : Maintained 0 db db
  | pass {passes now : Nat} {db middle after : Database} (h : Maintained passes db middle) (hquiet : middle.Quiet now)
      (hpass : executeMaintenance now middle = some after) : Maintained (passes + 1) db after

/-- Each pass opens delete tasks for as many unserved uploads as its window has room for, and enough of them leave
none unserved. -/
structure MaintenanceReaches (db : Database) : Prop where
  progress : ∀ {passes now middle after}, Maintained passes db middle → middle.Quiet now →
    executeMaintenance now middle = some after →
    middle.unserved.countP after.hasPutTask = min maximumExpiredPutsPerRun middle.unserved.length
  served : ∃ enough, ∀ passes ≥ enough, ∀ after, Maintained passes db after →
    ∀ id ∈ db.unserved, after.hasPutTask id = true

/-- The uploads that one pass looks at. -/
def Database.taskWindow (db : Database) : List Identity :=
  oldestFirst db.surroundings.ties maximumExpiredPutsPerRun db.abandonedUploads

/-- The same tables under another order of rows that the statements leave tied. -/
def Database.withTies (db : Database) (ties : Identity → Nat) : Database :=
  { db with surroundings := { db.surroundings with ties } }

/-! ### What the window holds -/

section Window

variable {limit : Nat} {candidates : List (Nat × Identity)}

theorem length_oldestFirst_le (ties : Identity → Nat) (limit : Nat) (candidates : List (Nat × Identity)) :
    (oldestFirst ties limit candidates).length ≤ limit := by
  rw [oldestFirst, List.length_map, List.length_take]
  exact min_le_left _ _

theorem exists_sorted (ties : Identity → Nat) (limit : Nat) (candidates : List (Nat × Identity)) :
    ∃ sorted : List (Nat × Identity), sorted.Perm candidates ∧
      sorted.Pairwise (fun left right => left.1 < right.1 ∨ (left.1 = right.1 ∧ ties left.2 ≤ ties right.2)) ∧
      oldestFirst ties limit candidates = (sorted.take limit).map Prod.snd := by
  have htotal : Std.Total fun left right : Nat × Identity =>
      left.1 < right.1 ∨ (left.1 = right.1 ∧ ties left.2 ≤ ties right.2) := ⟨fun left right => by omega⟩
  have htrans : IsTrans (Nat × Identity) fun left right =>
      left.1 < right.1 ∨ (left.1 = right.1 ∧ ties left.2 ≤ ties right.2) := ⟨fun left middle right => by omega⟩
  exact ⟨_, List.perm_insertionSort _ _, List.pairwise_insertionSort _ _, rfl⟩

/-- What is among the first by time alone is in the window, however ties fall. -/
theorem mem_oldestFirst_of_countP (ties : Identity → Nat) {time : Nat} {id : Identity}
    (hmem : (time, id) ∈ candidates) (hcount : (candidates.countP fun other => other.1 ≤ time) ≤ limit) :
    id ∈ oldestFirst ties limit candidates := by
  obtain ⟨sorted, hperm, hsorted, heq⟩ := exists_sorted ties limit candidates
  obtain ⟨before, behind, rfl⟩ := List.append_of_mem (hperm.mem_iff.mpr hmem)
  -- whatever stands before the row is no later
  have hbefore : before.countP (fun other => other.1 ≤ time) = before.length := by
    rw [List.countP_eq_length]
    intro other hother
    have hle := (List.pairwise_append.mp hsorted).2.2 other hother (time, id) List.mem_cons_self
    rw [decide_eq_true_eq]
    dsimp only at hle
    omega
  have hroom : before.length < limit := by
    rw [← hperm.countP_eq, List.countP_append, hbefore, List.countP_cons_of_pos (by simp)] at hcount
    omega
  rw [heq, List.mem_map]
  refine ⟨(time, id), ?_, rfl⟩
  obtain ⟨room, rfl⟩ := Nat.exists_eq_add_of_lt hroom
  rw [Nat.add_assoc, List.take_append, Nat.add_sub_cancel_left]
  simp

theorem countP_le_of_mem_oldestFirst {time : Nat} {id : Identity} (hnodup : (candidates.map Prod.snd).Nodup)
    (hmem : (time, id) ∈ candidates)
    (hwindow : id ∈ oldestFirst (fun other => if other = id then 1 else 0) limit candidates) :
    (candidates.countP fun other => other.1 ≤ time) ≤ limit := by
  obtain ⟨sorted, hperm, hsorted, heq⟩ := exists_sorted (fun other => if other = id then 1 else 0) limit candidates
  have hids : (sorted.map Prod.snd).Nodup := (hperm.map Prod.snd).nodup_iff.mpr hnodup
  obtain ⟨before, behind, rfl⟩ := List.append_of_mem (hperm.mem_iff.mpr hmem)
  rw [List.map_append, List.map_cons, List.nodup_append] at hids
  -- whatever stands behind the row is later
  have hbehind : behind.countP (fun other => other.1 ≤ time) = 0 := by
    rw [List.countP_eq_zero]
    intro other hother
    have hne : other.2 ≠ id := by
      intro hsame
      exact (List.nodup_cons.mp hids.2.1).1 (List.mem_map.mpr ⟨other, hother, hsame⟩)
    have hle := (List.pairwise_cons.mp (List.pairwise_append.mp hsorted).2.1).1 other hother
    simp only [if_neg hne, if_true] at hle
    rw [decide_eq_true_eq]
    omega
  have hroom : before.length < limit := by
    rw [heq, List.map_take, List.map_append, List.map_cons, List.take_append, List.length_map] at hwindow
    rcases List.mem_append.mp hwindow with hbefore | hrest
    · exact absurd rfl (hids.2.2 id (List.mem_of_mem_take hbefore) id List.mem_cons_self)
    · by_contra hfull
      rw [Nat.sub_eq_zero_of_le (Nat.not_lt.mp hfull), List.take_zero] at hrest
      cases hrest
  rw [← hperm.countP_eq, List.countP_append, List.countP_cons_of_pos (by simp), hbehind]
  have hbefore := List.countP_le_length (p := fun other : Nat × Identity => decide (other.1 ≤ time)) (l := before)
  omega

end Window

theorem Database.mem_abandonedUploads {db : Database} {time : Nat} {id : Identity}
    (h : (time, id) ∈ db.abandonedUploads) :
    ∃ intent, db.journal.putIntents.lookup id = some intent ∧ (db.journal.uploadEvidence.lookup id).isSome := by
  obtain ⟨row, hrow, heq⟩ := List.mem_filterMap.mp h
  split_ifs at heq with habandoned
  cases heq
  exact ⟨row.2, Table.mem_entries_iff.mp hrow, habandoned.2.1⟩

theorem Database.nodup_abandonedUploads (db : Database) : (db.abandonedUploads.map Prod.snd).Nodup := by
  have hkeys : (db.journal.putIntents.entries.map Sigma.fst).Nodup := db.journal.putIntents.nodupKeys
  refine List.Nodup.sublist ?_ hkeys
  rw [abandonedUploads, List.map_filterMap]
  induction db.journal.putIntents.entries with
  | nil => exact .slnil
  | cons row rows ih =>
      rw [List.filterMap_cons, List.map_cons]
      split_ifs
      · exact ih.cons_cons row.1
      · exact ih.cons row.1

theorem Database.nodup_unserved (db : Database) : db.unserved.Nodup := db.nodup_abandonedUploads.filter _

theorem Database.mem_unserved {db : Database} {id : Identity} :
    id ∈ db.unserved ↔ id ∈ db.abandonedUploads.map Prod.snd ∧ db.hasPutTask id = false := by
  rw [unserved, List.mem_filter, Bool.not_eq_true']

/-! ### One pass -/

/-- The row that a pass inserts for an upload of its window, unless the upload has one. -/
def Database.openPutTask (db : Database) (tasks : Table Identity PutDeleteTaskRow) (id : Identity) :
    Table Identity PutDeleteTaskRow :=
  match tasks.lookup id, db.journal.putIntents.lookup id, db.journal.uploadEvidence.lookup id with
  | none, some intent, some evidence =>
      match db.surroundings.drivers.lookup intent.driverId with
      | some driver =>
          tasks.insert id
            ⟨driver.revision, evidence.proof.commitSha256, max intent.expiresAt evidence.verifiedAt +
              putDeleteGraceSeconds, .pending, none, none, 0, none, none, none, none⟩
      | none => tasks
  | _, _, _ => tasks

theorem Database.lookup_openPutTask {db : Database} {first : Identity} {intent : PutIntentRow}
    (hintent : db.journal.putIntents.lookup first = some intent)
    (hevidence : (db.journal.uploadEvidence.lookup first).isSome)
    (hdriver : (db.surroundings.drivers.lookup intent.driverId).isSome) (tasks : Table Identity PutDeleteTaskRow)
    (id : Identity) :
    ((db.openPutTask tasks first).lookup id).isSome = true ↔ (tasks.lookup id).isSome = true ∨ id = first := by
  obtain ⟨evidence, hevidence⟩ := Option.isSome_iff_exists.mp hevidence
  obtain ⟨driver, hdriver⟩ := Option.isSome_iff_exists.mp hdriver
  rw [openPutTask, hintent, hevidence]
  cases htask : tasks.lookup first with
  | none =>
      simp only [hdriver, Table.lookup_insert_eq]
      by_cases hid : id = first
      · simp [hid]
      · simp [hid]
  | some task =>
      by_cases hid : id = first
      · subst hid
        simp [htask]
      · simp [hid]

/-- When nothing is due to expire, the batch opens the tasks of its window and forgets direct reads. -/
theorem executeMaintenance_of_quiet {now : Nat} {db after : Database} (hquiet : db.Quiet now)
    (h : executeMaintenance now db = some after) :
    after.journal = db.journal ∧ after.surroundings = db.surroundings ∧
      after.lifecycle.putTasks = db.taskWindow.foldl db.openPutTask db.lifecycle.putTasks := by
  have hoverdue : (db.journal.putIntents.entries.filterMap fun row =>
      if row.2.state = .prepared ∧ row.2.expiresAt ≤ now then some (row.2.expiresAt, row.1) else none) = [] := by
    rw [List.filterMap_eq_nil_iff]
    intro row hrow
    rw [if_neg]
    intro hdue
    exact absurd (hquiet row.1 row.2 (Table.mem_entries_iff.mp hrow) hdue.1) (Nat.not_lt.mpr hdue.2)
  have hintents : (db.journal.putIntents.mapRows fun id intent =>
      if (oldestFirst db.surroundings.ties maximumExpiredPutsPerRun []).contains id then
        { intent with state := .expired, revision := intent.revision + 1 } else intent) = db.journal.putIntents := by
    apply Table.mapRows_eq_self
    intro id intent _
    rfl
  rw [executeMaintenance, Option.some.injEq] at h
  simp only [hoverdue, hintents] at h
  subst h
  exact ⟨rfl, rfl, rfl⟩

/-- A quiet pass gives a task to exactly the uploads of its window, besides those that had one. -/
theorem hasPutTask_executeMaintenance {now : Nat} {db after : Database} (hdriven : db.IntentsDriven)
    (hquiet : db.Quiet now) (h : executeMaintenance now db = some after) (id : Identity) :
    after.hasPutTask id = true ↔ db.hasPutTask id = true ∨ id ∈ db.taskWindow := by
  have hservable : ∀ found ∈ db.taskWindow, ∃ intent, db.journal.putIntents.lookup found = some intent ∧
      (db.journal.uploadEvidence.lookup found).isSome ∧
      (db.surroundings.drivers.lookup intent.driverId).isSome := by
    intro found hfound
    obtain ⟨time, hcandidate⟩ := mem_oldestFirst hfound
    obtain ⟨intent, hintent, hevidence⟩ := db.mem_abandonedUploads hcandidate
    exact ⟨intent, hintent, hevidence, hdriven found intent hintent⟩
  obtain ⟨_, _, htasks⟩ := executeMaintenance_of_quiet hquiet h
  rw [Database.hasPutTask, Database.hasPutTask, htasks]
  generalize db.taskWindow = window at hservable
  generalize db.lifecycle.putTasks = tasks
  induction window generalizing tasks with
  | nil => simp
  | cons first window ih =>
      obtain ⟨intent, hintent, hevidence, hdriver⟩ := hservable first List.mem_cons_self
      have htail := ih (fun found hfound => hservable found (List.mem_cons_of_mem _ hfound)) (db.openPutTask tasks first)
      rw [List.foldl_cons, List.mem_cons, ← or_assoc, ← db.lookup_openPutTask hintent hevidence hdriver tasks id]
      exact htail

/-- What stays as it was over quiet passes: the abandoned uploads, and with them the window. -/
theorem Maintained.steady {passes : Nat} {db after : Database} (h : Maintained passes db after) :
    after.journal = db.journal ∧ after.surroundings = db.surroundings := by
  induction h with
  | none => exact ⟨rfl, rfl⟩
  | pass _ hquiet hpass ih =>
      obtain ⟨hjournal, hsurroundings, _⟩ := executeMaintenance_of_quiet hquiet hpass
      exact ⟨hjournal.trans ih.1, hsurroundings.trans ih.2⟩

theorem Database.abandonedUploads_congr {db after : Database} (h : after.journal = db.journal) :
    after.abandonedUploads = db.abandonedUploads := by
  rw [abandonedUploads, abandonedUploads, h]

theorem Database.taskWindow_congr {db after : Database} (hjournal : after.journal = db.journal)
    (hsurroundings : after.surroundings = db.surroundings) : after.taskWindow = db.taskWindow := by
  rw [taskWindow, taskWindow, abandonedUploads_congr hjournal, hsurroundings]

theorem Database.IntentsDriven.congr {db after : Database} (hdriven : db.IntentsDriven)
    (hjournal : after.journal = db.journal) (hsurroundings : after.surroundings = db.surroundings) :
    after.IntentsDriven := by
  intro id intent hintent
  rw [hsurroundings]
  exact hdriven id intent (hjournal ▸ hintent)

/-! ### Any number of passes -/

/-- After any number of passes but none, the uploads with a task are those that had one and those in the window. -/
theorem Maintained.hasPutTask {passes : Nat} {db after : Database} (h : Maintained passes db after)
    (hdriven : db.IntentsDriven) (id : Identity) :
    after.hasPutTask id = true ↔ db.hasPutTask id = true ∨ (0 < passes ∧ id ∈ db.taskWindow) := by
  induction h with
  | none => simp
  | @pass passes now db middle after h hquiet hpass ih =>
      have hsteady := h.steady
      rw [hasPutTask_executeMaintenance (hdriven.congr hsteady.1 hsteady.2) hquiet hpass, ih hdriven,
        Database.taskWindow_congr hsteady.1 hsteady.2]
      simp only [Nat.zero_lt_succ, true_and]
      tauto

theorem exists_maintained {now : Nat} {db : Database} (hquiet : db.Quiet now) (passes : Nat) :
    ∃ after, Maintained passes db after := by
  induction passes with
  | zero => exact ⟨db, .none db⟩
  | succ passes ih =>
      obtain ⟨middle, hmiddle⟩ := ih
      have hmiddle_quiet : middle.Quiet now := by
        intro id intent hintent
        exact hquiet id intent (hmiddle.steady.1 ▸ hintent)
      exact ⟨_, hmiddle.pass hmiddle_quiet rfl⟩

theorem MaintenanceReaches.mem_taskWindow {now : Nat} {db : Database} (h : MaintenanceReaches db)
    (hdriven : db.IntentsDriven) (hquiet : db.Quiet now) {id : Identity} (hid : id ∈ db.unserved) :
    id ∈ db.taskWindow := by
  obtain ⟨enough, hserved⟩ := h.served
  obtain ⟨after, hafter⟩ := exists_maintained hquiet enough
  rcases (hafter.hasPutTask hdriven id).mp (hserved enough le_rfl after hafter id hid) with hbefore | hwindow
  · rw [Database.mem_unserved] at hid
    rw [hid.2] at hbefore
    exact absurd hbefore Bool.false_ne_true
  · exact hwindow.2

/-- Maintenance reaches every abandoned upload exactly when those without a task are all in the window, which counts the
uploads that have one. -/
theorem maintenanceReaches_iff_window {now : Nat} {db : Database} (hdriven : db.IntentsDriven) (hquiet : db.Quiet now) :
    MaintenanceReaches db ↔ ∀ id ∈ db.unserved, id ∈ db.taskWindow := by
  constructor
  · intro hreaches id hid
    exact hreaches.mem_taskWindow hdriven hquiet hid
  · intro hwindow
    constructor
    · intro passes now middle after hmiddle hquiet hpass
      have hsteady := hmiddle.steady
      have hmiddle_window : ∀ id ∈ middle.unserved, id ∈ middle.taskWindow := by
        intro id hid
        rw [Database.mem_unserved, Database.abandonedUploads_congr hsteady.1] at hid
        rw [Database.taskWindow_congr hsteady.1 hsteady.2]
        apply hwindow
        rw [Database.mem_unserved]
        refine ⟨hid.1, ?_⟩
        rw [Bool.eq_false_iff]
        intro hbefore
        rw [(hmiddle.hasPutTask hdriven id).mpr (.inl hbefore)] at hid
        exact absurd hid.2.symm Bool.false_ne_true
      have hroom : middle.unserved.length ≤ maximumExpiredPutsPerRun :=
        (middle.nodup_unserved.subperm hmiddle_window).length_le.trans (length_oldestFirst_le _ _ _)
      rw [min_eq_right hroom, List.countP_eq_length]
      intro id hid
      rw [hasPutTask_executeMaintenance (hdriven.congr hsteady.1 hsteady.2) hquiet hpass]
      exact .inr (hmiddle_window id hid)
    · refine ⟨1, ?_⟩
      intro passes hpasses after hafter id hid
      exact (hafter.hasPutTask hdriven id).mpr (.inr ⟨hpasses, hwindow id hid⟩)

/-- **Maintenance reaches every abandoned upload** exactly when those without a task are all among the oldest
`maximumExpiredPutsPerRun`, counting the uploads that have one.  The statement orders by the time alone, so among uploads
that expire together the database decides; none is missed under any order exactly when so many expire no later than an
upload without a task. -/
theorem maintenance_reaches_iff {db : Database} (hdriven : db.IntentsDriven) (hquiet : ∃ now, db.Quiet now) :
    (MaintenanceReaches db ↔
      ∀ id ∈ db.unserved, id ∈ oldestFirst db.surroundings.ties maximumExpiredPutsPerRun db.abandonedUploads) ∧
    ((∀ ties, MaintenanceReaches (db.withTies ties)) ↔
      ∀ time id, (time, id) ∈ db.abandonedUploads → db.hasPutTask id = false →
        (db.abandonedUploads.countP fun other => other.1 ≤ time) ≤ maximumExpiredPutsPerRun) := by
  obtain ⟨now, hquiet⟩ := hquiet
  have hties : ∀ ties, MaintenanceReaches (db.withTies ties) ↔
      ∀ id ∈ db.unserved, id ∈ oldestFirst ties maximumExpiredPutsPerRun db.abandonedUploads := by
    intro ties
    have hwindow : MaintenanceReaches (db.withTies ties) ↔ _ := maintenanceReaches_iff_window hdriven hquiet
    exact hwindow
  refine ⟨maintenanceReaches_iff_window hdriven hquiet, ?_⟩
  simp only [hties, Database.mem_unserved]
  constructor
  · intro hall time id hmem htask
    exact countP_le_of_mem_oldestFirst db.nodup_abandonedUploads hmem
      (hall _ id ⟨List.mem_map.mpr ⟨(time, id), hmem, rfl⟩, htask⟩)
  · intro hcount ties id hid
    obtain ⟨⟨⟨time, found⟩, hmem, rfl⟩, htask⟩ := And.imp_left List.mem_map.mp hid
    exact mem_oldestFirst_of_countP ties hmem (hcount time found hmem htask)

namespace Sample

/-- An upload given up long ago. -/
def abandonedIntent (number : Nat) : PutIntentRow :=
  { filesystemId, principalId, tokenId
    directoryId := root
    entryName := key number
    expectedEntryRevision := 0
    expectedFileRevision := 0
    expectedCurrentVersionId := none
    fileId := fresh number
    versionId := fresh number
    locationId := fresh number
    driverId
    storageKey := key number
    description := ⟨10, 16, 1, .ofByte 31 1, .ofByte 31 1, 64, .plaintext, 0, 16⟩
    metadataRoot := .ofByte 31 1
    requestSha256 := .ofByte 31 1
    idempotencyKey := key number
    state := .expired
    expiresAt := 10
    revision := 2 }

/-- The proof of that upload. -/
def abandonedEvidence (number : Nat) : EvidenceRow :=
  ⟨tokenId, ⟨.ofByte 31 number.toUInt8, [1], 10, .ofByte 31 1, true, ⟨none, none, none⟩⟩, 5⟩

/-- One row for each number below `count`. -/
def filed {α : Type} (row : Nat → α) : Nat → Table Identity α
  | 0 => ∅
  | count + 1 => (filed row count).insert (fresh count) (row count)

/-- So many abandoned uploads, none of which has a delete task. -/
def backlog (count : Nat) : Database :=
  { database with
    journal := { database.journal with
      putIntents := filed abandonedIntent count
      uploadEvidence := filed abandonedEvidence count } }

theorem exists_of_lookup_filed {α : Type} {row : Nat → α} {count : Nat} {id : Identity} {found : α}
    (h : (filed row count).lookup id = some found) : ∃ number, found = row number := by
  induction count with
  | zero => cases h
  | succ count ih =>
      rw [filed, Table.lookup_insert_eq] at h
      split_ifs at h
      · exact ⟨count, (Option.some.inj h).symm⟩
      · exact ih h

theorem lookup_filed_isSome {α : Type} (row : Nat → α) {number count : Nat} (h : number < count) :
    ((filed row count).lookup (fresh number)).isSome := by
  induction count with
  | zero => exact absurd h (Nat.not_lt_zero number)
  | succ count ih =>
      rw [filed, Table.lookup_insert_eq]
      split_ifs with hsame
      · rfl
      · apply ih
        rcases Nat.lt_succ_iff_lt_or_eq.mp h with hlt | heq
        · exact hlt
        · exact absurd (heq ▸ rfl) hsame

theorem fresh_injOn {first second : Nat} (hfirst : first < 256) (hsecond : second < 256)
    (h : fresh first = fresh second) : first = second := by
  have hbytes := congrArg (fun id : Identity => id.val.head?) h
  simp only [fresh, List.head?_cons, Option.some.injEq] at hbytes
  have hnumbers : (UInt8.ofNat first).toNat = (UInt8.ofNat second).toNat := congrArg UInt8.toNat hbytes
  rwa [UInt8.toNat_ofNat_of_lt' hfirst, UInt8.toNat_ofNat_of_lt' hsecond] at hnumbers

theorem backlog_quiet (count now : Nat) : (backlog count).Quiet now := by
  intro id intent hintent hprepared
  obtain ⟨number, rfl⟩ := exists_of_lookup_filed hintent
  cases hprepared

theorem backlog_driven (count : Nat) : (backlog count).IntentsDriven := by
  intro id intent hintent
  obtain ⟨number, rfl⟩ := exists_of_lookup_filed hintent
  rfl

theorem mem_unserved_backlog {number count : Nat} (h : number < count) : fresh number ∈ (backlog count).unserved := by
  rw [Database.mem_unserved]
  refine ⟨?_, rfl⟩
  obtain ⟨intent, hintent⟩ := Option.isSome_iff_exists.mp (lookup_filed_isSome abandonedIntent h)
  obtain ⟨_, hrow⟩ := exists_of_lookup_filed hintent
  rw [List.mem_map]
  refine ⟨(10, fresh number), List.mem_filterMap.mpr ⟨⟨fresh number, intent⟩, ?_, ?_⟩, rfl⟩
  · exact Table.mem_entries_iff.mpr hintent
  · rw [if_pos ⟨.inl (hrow ▸ rfl), lookup_filed_isSome abandonedEvidence h, rfl⟩, hrow]
    rfl

end Sample

/-- Nine abandoned uploads that expire together are all reached, in whatever order they come. -/
theorem maintenance_reaches_backlog :
    MaintenanceReaches (Sample.backlog 9) ∧ ∀ ties, MaintenanceReaches ((Sample.backlog 9).withTies ties) := by
  have hreaches := maintenance_reaches_iff (Sample.backlog_driven 9) ⟨0, Sample.backlog_quiet 9 0⟩
  refine ⟨hreaches.1.mpr (by decide +kernel), hreaches.2.mpr ?_⟩
  intro time id _ _
  exact List.countP_le_length.trans (by decide +kernel)

/-- With one abandoned upload more than the window holds, the last one is never served. -/
theorem maintenance_misses_backlog : ¬MaintenanceReaches (Sample.backlog 251) := by
  intro hreaches
  have hwindow : ∀ id ∈ (List.range 251).map Sample.fresh, id ∈ (Sample.backlog 251).taskWindow := by
    intro id hid
    obtain ⟨number, hnumber, rfl⟩ := List.mem_map.mp hid
    exact hreaches.mem_taskWindow (Sample.backlog_driven 251) (Sample.backlog_quiet 251 0)
      (Sample.mem_unserved_backlog (List.mem_range.mp hnumber))
  have hnodup : ((List.range 251).map Sample.fresh).Nodup := by
    apply List.nodup_range.map_on
    intro first hfirst second hsecond h
    rw [List.mem_range] at hfirst hsecond
    exact Sample.fresh_injOn (by omega) (by omega) h
  have hroom := (hnodup.subperm hwindow).length_le.trans (length_oldestFirst_le _ _ _)
  rw [List.length_map, List.length_range] at hroom
  exact absurd hroom (by decide)

end Skydriver
