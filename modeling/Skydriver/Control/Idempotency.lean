import Skydriver.Control.Uploads
import Skydriver.Lib.Observing

/-!
# Requests under one idempotency key

Every mutation is filed under the key of its request: the principal, directory and key of a preparation, the intent of
a publication, the token and key of the others.  The constraints of the tables let at most one batch take effect under
a key, and each handler answers from what is filed there if the digest is that of its own request.  What is filed never
changes, except that the intent of a preparation moves on to its final state.
-/

namespace Skydriver

/-! ### Keys -/

/-- What a mutation is filed under.  A publication first files the evidence of its upload. -/
inductive IdempotencyKey where
  | prepare (principalId directoryId : Identity) (key : Text)
  | evidence (intentId : Identity)
  | commit (intentId : Identity)
  | create (tokenId : Identity) (key : Text)
  | remove (tokenId : Identity) (key : Text)
  | rename (tokenId : Identity) (key : Text)
  | issue (parentId : Identity) (key : Text)
  | policy (kind : PolicyKind) (tokenId : Identity) (key : Text)
deriving DecidableEq

/-- The key and the digest of a request, in the hands of the token that makes it. -/
def Operation.identity (token : AuthenticatedToken) : Operation → Option (IdempotencyKey × Digest)
  | .prepare request =>
      some (.prepare token.principalId request.directoryId request.idempotencyKey, request.requestSha256)
  | .commit request => some (.commit request.intentId, request.proof.commitSha256)
  | .create request => some (.create token.id request.idempotencyKey, request.requestSha256)
  | .remove request => some (.remove token.id request.idempotencyKey, request.requestSha256)
  | .rename request => some (.rename token.id request.idempotencyKey, request.requestSha256)
  | .issue request => some (.issue token.id request.idempotencyKey, request.requestSha256)
  | .replaceAcl request => some (.policy .aclReplace token.id request.idempotencyKey, request.requestSha256)
  | .replacePlacements request =>
      some (.policy .placementReplace token.id request.idempotencyKey, request.requestSha256)
  | _ => none

def Mutation.identity : Mutation → Option (IdempotencyKey × Digest)
  | .putPrepare batch =>
      some (.prepare batch.intent.principalId batch.intent.directoryId batch.intent.idempotencyKey,
        batch.intent.requestSha256)
  | .evidence batch => some (.evidence batch.intentId, batch.evidence.proof.commitSha256)
  | .putCommit batch => some (.commit batch.intentId, batch.proof.commitSha256)
  | .mkdir batch => some (.create batch.token.id batch.idempotencyKey, batch.requestSha256)
  | .remove batch => some (.remove batch.token.id batch.idempotencyKey, batch.requestSha256)
  | .rename batch => some (.rename batch.token.id batch.idempotencyKey, batch.requestSha256)
  | .tokenIssue batch => some (.issue batch.parent.id batch.idempotencyKey, batch.requestSha256)
  | .aclReplace batch => some (.policy .aclReplace batch.intent.token.id batch.intent.idempotencyKey,
      batch.intent.requestSha256)
  | .placementReplace batch => some (.policy .placementReplace batch.intent.token.id batch.intent.idempotencyKey,
      batch.intent.requestSha256)
  | _ => none

def PutIntentRow.pinned (intent : PutIntentRow) : PutIntentRow := { intent with state := .prepared, revision := 1 }

/-- A receipt, less what a preparation reports of the later life of its intent. -/
def Receipt.pinned : Receipt → Receipt
  | .preparation id intent => .preparation id intent.pinned
  | receipt => receipt

/-! ### What is filed -/

/-- A row of the table that is about the key at hand, with its digest and receipt. -/
def Filed {κ α : Type} [DecidableEq κ] (table : Table κ α) (about : κ → α → Prop) (digest : α → Digest)
    (receipt : κ → α → Receipt) (found : Digest) (answer : Receipt) : Prop :=
  ∃ key row, table.lookup key = some row ∧ about key row ∧ digest row = found ∧ receipt key row = answer

section Filed

variable {κ α : Type} [DecidableEq κ] {table : Table κ α} {about : κ → α → Prop} {digest : α → Digest}
  {receipt : κ → α → Receipt} {key : κ} {row : α}

theorem filed_insert_other (hfresh : table.lookup key = none) (hother : ¬about key row) (found : Digest)
    (answer : Receipt) :
    Filed (table.insert key row) about digest receipt found answer ↔ Filed table about digest receipt found answer := by
  constructor
  · rintro ⟨key', row', hlookup, habout, hrest⟩
    rw [Table.lookup_insert_eq] at hlookup
    split_ifs at hlookup with hkey
    · cases hlookup
      exact absurd (hkey ▸ habout) hother
    · exact ⟨key', row', hlookup, habout, hrest⟩
  · rintro ⟨key', row', hlookup, hrest⟩
    refine ⟨key', row', ?_, hrest⟩
    rw [Table.lookup_insert_eq, if_neg, hlookup]
    rintro rfl
    rw [hfresh] at hlookup
    cases hlookup

theorem filed_insert_self (digest : α → Digest) (receipt : κ → α → Receipt) (habout : about key row)
    (hnone : ∀ key' row', table.lookup key' = some row' → ¬about key' row') :
    (∀ found answer, ¬Filed table about digest receipt found answer) ∧
      ∀ found answer, Filed (table.insert key row) about digest receipt found answer ↔
        digest row = found ∧ receipt key row = answer := by
  constructor
  · rintro found answer ⟨key', row', hlookup, habout', _⟩
    exact hnone key' row' hlookup habout'
  · intro found answer
    constructor
    · rintro ⟨key', row', hlookup, habout', hrest⟩
      rw [Table.lookup_insert_eq] at hlookup
      split_ifs at hlookup with hkey
      · cases hlookup
        exact hkey ▸ hrest
      · exact absurd habout' (hnone key' row' hlookup)
    · intro hrest
      exact ⟨key, row, AList.lookup_insert _, habout, hrest⟩

end Filed

/-- What is filed under a key: the digest of the request and the receipt. -/
def Database.Recorded (db : Database) : IdempotencyKey → Digest → Receipt → Prop
  | .prepare principalId directoryId key =>
      Filed db.journal.putIntents
        (fun _ intent => intent.principalId = principalId ∧ intent.directoryId = directoryId ∧
          intent.idempotencyKey = key)
        PutIntentRow.requestSha256 fun id intent => .preparation id intent.pinned
  | .evidence intentId =>
      Filed db.journal.uploadEvidence (fun id _ => id = intentId) (fun row => row.proof.commitSha256)
        fun _ _ => .completed
  | .commit intentId => fun digest receipt =>
      ∃ intent, db.journal.putIntents.lookup intentId = some intent ∧ intent.state = .committed ∧
        Filed db.journal.putReceipts (fun id _ => id = intentId) (fun row => row.proof.commitSha256)
          (fun _ row => .putCommit intent row) digest receipt
  | .create tokenId key =>
      Filed db.journal.directoryCreates (fun _ row => row.tokenId = tokenId ∧ row.idempotencyKey = key)
        DirectoryCreateRow.requestSha256 .directoryCreate
  | .remove tokenId key =>
      Filed db.journal.removals (fun _ row => row.tokenId = tokenId ∧ row.idempotencyKey = key)
        RemoveRow.requestSha256 .remove
  | .rename tokenId key =>
      Filed db.journal.renames (fun _ row => row.tokenId = tokenId ∧ row.idempotencyKey = key)
        RenameRow.requestSha256 .rename
  | .issue parentId key =>
      Filed db.journal.tokenIssues (fun id _ => id = (parentId, key)) TokenIssueRow.requestSha256
        fun _ row => .tokenIssue row
  | .policy kind tokenId key =>
      Filed db.journal.policies (fun _ row => row.kind = kind ∧ row.tokenId = tokenId ∧ row.idempotencyKey = key)
        PolicyRow.requestSha256 .policy

/-- What a batch does to the records under a key: nothing, or it files the first one. -/
inductive FilesUnder (db after : Database) (mutation : Mutation) (key : IdempotencyKey) : Prop where
  | unchanged (hsame : ∀ digest receipt, after.Recorded key digest receipt ↔ db.Recorded key digest receipt)
      (hidle : ∀ digest, mutation.identity = some (key, digest) → after = db)
  | filed {digest : Digest} {receipt : Receipt} (hidentity : mutation.identity = some (key, digest))
      (hnone : ∀ digest receipt, ¬db.Recorded key digest receipt)
      (hfiled : ∀ found answer, after.Recorded key found answer ↔ digest = found ∧ receipt = answer)

/-! ### The tables of records -/

/-- The journal's tables of records. -/
structure Records where
  evidence : Table Identity EvidenceRow
  receipts : Table Identity PutReceiptRow
  creates : Table Identity DirectoryCreateRow
  removals : Table Identity RemoveRow
  renames : Table Identity RenameRow
  issues : Table (Identity × Text) TokenIssueRow
  policies : Table Identity PolicyRow

def Journal.records (journal : Journal) : Records :=
  ⟨journal.uploadEvidence, journal.putReceipts, journal.directoryCreates, journal.removals, journal.renames,
    journal.tokenIssues, journal.policies⟩

/-- The table that the records under the key are filed in is as before.  Preparations are filed in the intents. -/
def Records.SameUnder (before after : Records) : IdempotencyKey → Prop
  | .prepare _ _ _ => True
  | .evidence _ => after.evidence = before.evidence
  | .commit _ => after.receipts = before.receipts
  | .create _ _ => after.creates = before.creates
  | .remove _ _ => after.removals = before.removals
  | .rename _ _ => after.renames = before.renames
  | .issue _ _ => after.issues = before.issues
  | .policy _ _ _ => after.policies = before.policies

def issueRecord (batch : TokenIssueBatch) : TokenIssueRow :=
  ⟨batch.requestSha256, batch.parent.principalId, batch.rootDirectoryId, batch.tokenId, batch.actions, batch.drivers,
    batch.expiresAt⟩

def policyRecord (kind : PolicyKind) (intent : PolicyIntent) : PolicyRow :=
  ⟨kind, intent.token.id, intent.directoryId, intent.requestSha256, intent.idempotencyKey, intent.finalRevision,
    intent.now⟩

/-- What a batch makes of the tables of records: a fresh row in one of them, or nothing. -/
inductive RecordChange (db after : Database) : Mutation → Prop where
  | evidence {batch : EvidenceBatch} (hfresh : db.journal.uploadEvidence.lookup batch.intentId = none)
      (hrecords : after.journal.records = { db.journal.records with
        evidence := db.journal.uploadEvidence.insert batch.intentId batch.evidence }) :
      RecordChange db after (.evidence batch)
  | putCommit {batch : PutCommitBatch} {intent : PutIntentRow} (hput : PutCommitted batch intent db after)
      (hrecords : after.journal.records = { db.journal.records with receipts := after.journal.putReceipts }) :
      RecordChange db after (.putCommit batch)
  | mkdir {batch : MkdirBatch} (hmkdir : MkdirCommitted batch db after)
      (hrecords : after.journal.records = { db.journal.records with creates := after.journal.directoryCreates }) :
      RecordChange db after (.mkdir batch)
  | remove {batch : RemoveBatch} (hremove : RemoveCommitted batch db after)
      (hrecords : after.journal.records = { db.journal.records with removals := after.journal.removals }) :
      RecordChange db after (.remove batch)
  | rename {batch : RenameBatch} (hrename : RenameCommitted batch db after)
      (hrecords : after.journal.records = { db.journal.records with renames := after.journal.renames }) :
      RecordChange db after (.rename batch)
  | tokenIssue {batch : TokenIssueBatch}
      (hfresh : db.journal.tokenIssues.lookup (batch.parent.id, batch.idempotencyKey) = none)
      (hrecords : after.journal.records = { db.journal.records with
        issues := db.journal.tokenIssues.insert (batch.parent.id, batch.idempotencyKey) (issueRecord batch) }) :
      RecordChange db after (.tokenIssue batch)
  | policy {mutation : Mutation} {kind : PolicyKind} {intent : PolicyIntent}
      (hidentity : mutation.identity = some (.policy kind intent.token.id intent.idempotencyKey, intent.requestSha256))
      (hfresh : db.journal.policies.lookup intent.operationId = none)
      (hkeys : ∀ id row, db.journal.policies.lookup id = some row →
        ¬(row.kind = kind ∧ row.tokenId = intent.token.id ∧ row.idempotencyKey = intent.idempotencyKey))
      (hrecords : after.journal.records = { db.journal.records with
        policies := db.journal.policies.insert intent.operationId (policyRecord kind intent) }) :
      RecordChange db after mutation
  | unchanged {mutation : Mutation} (hrecords : after.journal.records = db.journal.records)
      (hidle : ∀ key digest, mutation.identity = some (key, digest) →
        after = db ∨ ∃ principalId directoryId name, key = .prepare principalId directoryId name) :
      RecordChange db after mutation

theorem policyIntentAllowed_fresh {kind : PolicyKind} {intent : PolicyIntent} {db : Database}
    (h : policyIntentAllowed kind intent db = true) :
    db.journal.policies.lookup intent.operationId = none ∧ ∀ id row, db.journal.policies.lookup id = some row →
      ¬(row.kind = kind ∧ row.tokenId = intent.token.id ∧ row.idempotencyKey = intent.idempotencyKey) := by
  simp only [policyIntentAllowed, Bool.and_eq_true, Option.isNone_iff_eq_none, Bool.not_eq_true', Table.any_eq_false,
    Bool.and_eq_false_iff, beq_eq_false_iff_ne] at h
  obtain ⟨⟨⟨⟨_, hfresh⟩, hkeys⟩, _⟩, _⟩ := h
  refine ⟨hfresh, ?_⟩
  rintro id row hrow ⟨hkind, htoken, hkey⟩
  rcases hkeys id row hrow with (hne | hne) | hne
  · exact hne htoken
  · exact hne hkind
  · exact hne hkey

theorem executeEvidence_records {batch : EvidenceBatch} {db after : Database}
    (h : executeEvidence batch db = some after) : RecordChange db after (.evidence batch) := by
  simp only [executeEvidence, Option.bind_eq_bind, Option.bind_eq_some_iff] at h
  obtain ⟨_, _, _, _, _, _, h⟩ := h
  split_ifs at h with hfound
  · cases h
    exact .unchanged rfl fun _ _ _ => .inl rfl
  · cases h
    exact .evidence (Option.not_isSome_iff_eq_none.mp hfound) rfl

theorem executeTokenIssue_records {batch : TokenIssueBatch} {db after : Database}
    (h : executeTokenIssue batch db = some after) : RecordChange db after (.tokenIssue batch) := by
  simp only [executeTokenIssue, Option.bind_eq_bind, Option.bind_eq_some_iff, require_eq_some,
    Option.isNone_iff_eq_none] at h
  obtain ⟨_, _, _, _, _, _, _, _, _, _, _, _, _, hfresh, _, _, _, _, hafter⟩ := h
  cases hafter
  exact .tokenIssue hfresh rfl

theorem executeAclReplace_records {batch : AclReplaceBatch} {db after : Database}
    (h : executeAclReplace batch db = some after) : RecordChange db after (.aclReplace batch) := by
  simp only [executeAclReplace, Option.bind_eq_bind, Option.bind_eq_some_iff, require_eq_some] at h
  obtain ⟨_, hallowed, _, _, _, _, _, _, hafter⟩ := h
  cases hafter
  obtain ⟨hfresh, hkeys⟩ := policyIntentAllowed_fresh hallowed
  exact .policy rfl hfresh hkeys rfl

theorem executePlacementReplace_records {batch : PlacementReplaceBatch} {db after : Database}
    (h : executePlacementReplace batch db = some after) : RecordChange db after (.placementReplace batch) := by
  simp only [executePlacementReplace, Option.bind_eq_bind, Option.bind_eq_some_iff, require_eq_some] at h
  obtain ⟨_, hallowed, _, _, _, _, _, _, hafter⟩ := h
  cases hafter
  obtain ⟨hfresh, hkeys⟩ := policyIntentAllowed_fresh hallowed
  exact .policy rfl hfresh hkeys rfl

theorem Mutation.identity_of_onTasks {mutation : Mutation} (h : mutation.onTasks = true) : mutation.identity = none := by
  cases mutation <;> first | rfl | cases h

theorem Committed.records {db after : Database} {mutation : Mutation} (h : Committed db after mutation) :
    RecordChange db after mutation := by
  have hnokey : after.journal.records = db.journal.records → mutation.identity = none →
      RecordChange db after mutation := by
    intro hrecords hnone
    refine .unchanged hrecords fun _ _ hidentity => ?_
    rw [hnone] at hidentity
    cases hidentity
  cases h with
  | putCommit h =>
      refine .putCommit h ?_
      obtain ⟨_, _, hpublish, hjournal⟩ := h.journal
      obtain ⟨_, _, rfl⟩ := Journal.publish_eq_some hpublish
      rw [hjournal]
      rfl
  | mkdir h =>
      refine .mkdir h ?_
      obtain ⟨_, _, hpublish, hjournal⟩ := h.journal
      obtain ⟨_, _, rfl⟩ := Journal.publish_eq_some hpublish
      rw [hjournal]
      rfl
  | remove h =>
      refine .remove h ?_
      obtain ⟨_, _, hpublish, hjournal⟩ := h.journal
      obtain ⟨_, _, rfl⟩ := Journal.publish_eq_some hpublish
      rw [hjournal]
      rfl
  | rename h =>
      refine .rename h ?_
      obtain ⟨_, _, hpublish, hjournal⟩ := h.journal
      obtain ⟨_, _, rfl⟩ := Journal.publish_eq_some hpublish
      rw [hjournal]
      rfl
  | putPrepare h =>
      rcases executePutPrepare_eq_some h with rfl | ⟨rfl, _⟩
      · exact .unchanged rfl fun _ _ _ => .inl rfl
      · refine .unchanged rfl fun key digest hidentity => .inr ?_
        cases hidentity
        exact ⟨_, _, _, rfl⟩
  | evidence h => exact executeEvidence_records h
  | tokenIssue h => exact executeTokenIssue_records h
  | tokenRevoke h =>
      obtain ⟨_, _, _, _, rfl⟩ := executeTokenRevoke_eq_some h
      exact hnokey rfl rfl
  | aclReplace h => exact executeAclReplace_records h
  | placementReplace h => exact executePlacementReplace_records h
  | maintenance h =>
      obtain ⟨_, _, rfl, _⟩ := executeMaintenance_eq_some h
      exact hnokey rfl rfl
  | markUnreachable h =>
      obtain ⟨_, _, rfl, _⟩ := executeMarkUnreachable_eq_some h
      exact hnokey rfl rfl
  | locationComplete h =>
      obtain ⟨_, _, rfl, _⟩ := executeLocationComplete_eq_some h
      exact hnokey rfl rfl
  | task _ htask _ h =>
      subst h
      exact hnokey rfl (Mutation.identity_of_onTasks htask)

/-! ### One batch under one key -/

section FilesUnder

variable {db after : Database} {mutation : Mutation}

theorem FilesUnder.kept {key : IdempotencyKey}
    (hsame : ∀ digest receipt, after.Recorded key digest receipt ↔ db.Recorded key digest receipt)
    (hkey : ∀ digest, mutation.identity ≠ some (key, digest)) : FilesUnder db after mutation key :=
  .unchanged hsame fun digest hidentity => absurd hidentity (hkey digest)

/-- A fresh row in the table of the key is filed under it or under another key. -/
theorem FilesUnder.inserted {κ α : Type} [DecidableEq κ] {table : Table κ α} {about : κ → α → Prop}
    {digest : α → Digest} {receipt : κ → α → Receipt} {key : IdempotencyKey} {id : κ} {row : α}
    (hfresh : table.lookup id = none)
    (hdb : ∀ found answer, db.Recorded key found answer ↔ Filed table about digest receipt found answer)
    (hafter : ∀ found answer, after.Recorded key found answer ↔ Filed (table.insert id row) about digest receipt found
      answer)
    (hidentity : ∀ found, mutation.identity = some (key, found) ↔ about id row ∧ digest row = found)
    (hnone : about id row → ∀ other found, table.lookup other = some found → ¬about other found) :
    FilesUnder db after mutation key := by
  by_cases habout : about id row
  · obtain ⟨hempty, hfiled⟩ := filed_insert_self digest receipt habout (hnone habout)
    refine @FilesUnder.filed _ _ _ _ (digest row) (receipt id row) ((hidentity _).mpr ⟨habout, rfl⟩) ?_ ?_
    · intro found answer hrecorded
      exact hempty found answer ((hdb found answer).mp hrecorded)
    · intro found answer
      exact (hafter found answer).trans (hfiled found answer)
  · refine .kept (fun found answer => ?_) fun found hfound => habout ((hidentity found).mp hfound).1
    rw [hafter, hdb]
    exact filed_insert_other hfresh habout found answer

/-- Only published intents have a receipt. -/
def ReceiptsCommitted (db : Database) : Prop :=
  ∀ id receipt, db.journal.putReceipts.lookup id = some receipt →
    ∃ intent, db.journal.putIntents.lookup id = some intent ∧ intent.state = .committed

theorem Committed.intent_final (h : Committed db after mutation) {id : Identity} {intent : PutIntentRow}
    (hintent : db.journal.putIntents.lookup id = some intent) (hcommitted : intent.state = .committed) :
    after.journal.putIntents.lookup id = some intent := by
  obtain ⟨new, hnew, hevolves⟩ := h.intentsEvolve id intent hintent
  rw [hevolves.final (by rw [hcommitted]; exact fun heq => by cases heq)] at hnew
  exact hnew

theorem Committed.receiptsCommitted (h : Committed db after mutation) (hreceipts : ReceiptsCommitted db) :
    ReceiptsCommitted after := by
  have hkept : after.journal.putReceipts = db.journal.putReceipts → ReceiptsCommitted after := by
    intro hsame id receipt hreceipt
    rw [hsame] at hreceipt
    obtain ⟨intent, hintent, hcommitted⟩ := hreceipts id receipt hreceipt
    exact ⟨intent, h.intent_final hintent hcommitted, hcommitted⟩
  cases h.records with
  | @putCommit batch _ hput _ =>
      intro id receipt hreceipt
      rw [hput.receipt.2, Table.lookup_insert_eq] at hreceipt
      split_ifs at hreceipt with hid
      · exact ⟨_, by rw [hput.putIntents, hid, AList.lookup_insert], rfl⟩
      · obtain ⟨intent, hintent, hcommitted⟩ := hreceipts id receipt hreceipt
        exact ⟨intent, h.intent_final hintent hcommitted, hcommitted⟩
  | evidence _ hrecords => exact hkept (congrArg Records.receipts hrecords)
  | mkdir _ hrecords => exact hkept (congrArg Records.receipts hrecords)
  | remove _ hrecords => exact hkept (congrArg Records.receipts hrecords)
  | rename _ hrecords => exact hkept (congrArg Records.receipts hrecords)
  | tokenIssue _ hrecords => exact hkept (congrArg Records.receipts hrecords)
  | policy _ _ _ hrecords => exact hkept (congrArg Records.receipts hrecords)
  | unchanged hrecords _ => exact hkept (congrArg Records.receipts hrecords)

theorem Committed.recorded_commit (h : Committed db after mutation) (hreceipts : ReceiptsCommitted db)
    {intentId : Identity}
    (hsame : ∀ receipt, after.journal.putReceipts.lookup intentId = some receipt ↔
      db.journal.putReceipts.lookup intentId = some receipt) (digest : Digest) (answer : Receipt) :
    after.Recorded (.commit intentId) digest answer ↔ db.Recorded (.commit intentId) digest answer := by
  constructor
  · rintro ⟨intent, hintent, _, id, receipt, hreceipt, rfl, hrest⟩
    have hbefore := (hsame receipt).mp hreceipt
    obtain ⟨old, hold, hcommitted⟩ := hreceipts id receipt hbefore
    have hsame := h.intent_final hold hcommitted
    rw [hintent] at hsame
    cases hsame
    exact ⟨intent, hold, hcommitted, id, receipt, hbefore, rfl, hrest⟩
  · rintro ⟨intent, hintent, hcommitted, id, receipt, hreceipt, rfl, hrest⟩
    exact ⟨intent, h.intent_final hintent hcommitted, hcommitted, id, receipt, (hsame receipt).mpr hreceipt, rfl, hrest⟩

theorem Committed.recorded_same (h : Committed db after mutation) (hreceipts : ReceiptsCommitted db)
    {key : IdempotencyKey} (hkey : ∀ principalId directoryId name, key ≠ .prepare principalId directoryId name)
    (hsame : db.journal.records.SameUnder after.journal.records key) (digest : Digest) (receipt : Receipt) :
    after.Recorded key digest receipt ↔ db.Recorded key digest receipt := by
  simp only [Records.SameUnder, Journal.records] at hsame
  cases key with
  | prepare principalId directoryId name => exact absurd rfl (hkey principalId directoryId name)
  | commit intentId => exact h.recorded_commit hreceipts (fun receipt => by rw [hsame]) digest receipt
  | _ => rw [Database.Recorded, Database.Recorded, hsame]

theorem PutCommitted.filesUnder {batch : PutCommitBatch} {intent : PutIntentRow} (h : PutCommitted batch intent db after) :
    FilesUnder db after (.putCommit batch) (.commit batch.intentId) := by
  refine @FilesUnder.filed _ _ _ _ batch.proof.commitSha256 (.putCommit
    { intent with state := .committed, revision := intent.revision + 1 }
    ⟨batch.token.id, batch.proof, intent.expectedEntryRevision + 1, db.journal.nextCatalogRevision, batch.now⟩) rfl ?_ ?_
  · rintro digest answer ⟨_, _, _, id, receipt, hreceipt, rfl, _⟩
    rw [h.receipt.1] at hreceipt
    cases hreceipt
  · intro found answer
    constructor
    · rintro ⟨new, hnew, _, id, receipt, hreceipt, rfl, hdigest, hanswer⟩
      rw [h.putIntents, AList.lookup_insert] at hnew
      rw [h.receipt.2, AList.lookup_insert] at hreceipt
      cases hnew
      cases hreceipt
      exact ⟨hdigest, hanswer⟩
    · rintro ⟨rfl, rfl⟩
      refine ⟨_, by rw [h.putIntents, AList.lookup_insert], rfl, batch.intentId, _, ?_, rfl, rfl, rfl⟩
      rw [h.receipt.2, AList.lookup_insert]

/-- A batch files its row in one table, and the keys of the other tables keep what is filed under them. -/
theorem Committed.filesUnder_records (h : Committed db after mutation) (hreceipts : ReceiptsCommitted db)
    {key : IdempotencyKey} (hkey : ∀ principalId directoryId name, key ≠ .prepare principalId directoryId name) :
    FilesUnder db after mutation key := by
  have hkept : db.journal.records.SameUnder after.journal.records key →
      (∀ digest, mutation.identity ≠ some (key, digest)) → FilesUnder db after mutation key :=
    fun hsame hother => .kept (h.recorded_same hreceipts hkey hsame) hother
  cases h.records with
  | @evidence batch hfresh hrecords =>
      have htable : after.journal.uploadEvidence = _ := congrArg Records.evidence hrecords
      cases key with
      | evidence intentId =>
          refine .inserted hfresh (fun _ _ => Iff.rfl) (fun _ _ => by rw [Database.Recorded, htable]) ?_ ?_
          · simp [Mutation.identity]
          · rintro rfl id row hrow rfl
            rw [hfresh] at hrow
            cases hrow
      | _ => exact hkept (by simp only [Records.SameUnder, hrecords]) fun _ hidentity => by cases hidentity
  | @putCommit batch intent hput hrecords =>
      cases key with
      | commit intentId =>
          by_cases habout : batch.intentId = intentId
          · exact habout ▸ hput.filesUnder
          · refine .kept (h.recorded_commit hreceipts fun receipt => ?_) ?_
            · rw [hput.receipt.2, AList.lookup_insert_ne (Ne.symm habout)]
            · intro digest hidentity
              cases hidentity
              exact habout rfl
      | _ => exact hkept (by simp only [Records.SameUnder, hrecords]) fun _ hidentity => by cases hidentity
  | @mkdir batch hmkdir hrecords =>
      cases key with
      | create tokenId key =>
          refine .inserted hmkdir.fresh.1 (fun _ _ => Iff.rfl) (fun _ _ => by rw [Database.Recorded, hmkdir.record]) ?_ ?_
          · simp [Mutation.identity, mkdirRecord]
          · rintro ⟨rfl, rfl⟩
            exact hmkdir.fresh.2
      | _ => exact hkept (by simp only [Records.SameUnder, hrecords]) fun _ hidentity => by cases hidentity
  | @remove batch hremove hrecords =>
      cases key with
      | remove tokenId key =>
          refine .inserted hremove.fresh.1 (fun _ _ => Iff.rfl) (fun _ _ => by rw [Database.Recorded, hremove.record])
            ?_ ?_
          · simp [Mutation.identity, removeRecord]
          · rintro ⟨rfl, rfl⟩
            exact hremove.fresh.2
      | _ => exact hkept (by simp only [Records.SameUnder, hrecords]) fun _ hidentity => by cases hidentity
  | @rename batch hrename hrecords =>
      cases key with
      | rename tokenId key =>
          refine .inserted hrename.fresh.1 (fun _ _ => Iff.rfl) (fun _ _ => by rw [Database.Recorded, hrename.record])
            ?_ ?_
          · simp [Mutation.identity, renameRecord]
          · rintro ⟨rfl, rfl⟩
            exact hrename.fresh.2
      | _ => exact hkept (by simp only [Records.SameUnder, hrecords]) fun _ hidentity => by cases hidentity
  | @tokenIssue batch hfresh hrecords =>
      have htable : after.journal.tokenIssues = _ := congrArg Records.issues hrecords
      cases key with
      | issue parentId key =>
          refine .inserted hfresh (fun _ _ => Iff.rfl) (fun _ _ => by rw [Database.Recorded, htable]) ?_ ?_
          · simp [Mutation.identity, issueRecord]
          · rintro habout id row hrow rfl
            rw [← habout, hfresh] at hrow
            cases hrow
      | _ => exact hkept (by simp only [Records.SameUnder, hrecords]) fun _ hidentity => by cases hidentity
  | @policy _ kind intent hpolicy hfresh hkeys hrecords =>
      have htable : after.journal.policies = _ := congrArg Records.policies hrecords
      cases key with
      | policy found tokenId key =>
          refine .inserted hfresh (fun _ _ => Iff.rfl) (fun _ _ => by rw [Database.Recorded, htable]) ?_ ?_
          · simp [hpolicy, policyRecord]
          · rintro ⟨rfl, rfl, rfl⟩
            exact hkeys
      | _ =>
          refine hkept (by simp only [Records.SameUnder, hrecords]) fun _ hidentity => ?_
          rw [hpolicy] at hidentity
          cases hidentity
  | unchanged hrecords hidle =>
      refine .unchanged (h.recorded_same hreceipts hkey (by rw [hrecords]; cases key <;> trivial)) fun digest hidentity => ?_
      refine (hidle _ _ hidentity).resolve_right ?_
      rintro ⟨principalId, directoryId, name, hprepare⟩
      exact hkey principalId directoryId name hprepare

/-- A preparation under a known key does nothing, and the others are the first under theirs. -/
theorem executePutPrepare_first {batch : PutPrepareBatch} (h : executePutPrepare batch db = some after) :
    after = db ∨ (after = { db with journal := { db.journal with
        putIntents := db.journal.putIntents.insert batch.intentId batch.intent } } ∧
      db.journal.putIntents.lookup batch.intentId = none ∧
      ∀ id other, db.journal.putIntents.lookup id = some other → ¬(other.principalId = batch.intent.principalId ∧
        other.directoryId = batch.intent.directoryId ∧ other.idempotencyKey = batch.intent.idempotencyKey)) := by
  simp only [executePutPrepare, Option.bind_eq_bind, Option.bind_eq_some_iff, require_eq_some] at h
  obtain ⟨_, _, _, _, _, _, _, _, _, _, _, _, _, _, _, _, h⟩ := h
  split_ifs at h with hknown
  · exact .inl (Option.some.inj h).symm
  · simp only [Option.bind_eq_some_iff, require_eq_some, Bool.and_eq_true, Option.isNone_iff_eq_none] at h
    obtain ⟨_, hfresh, _, _, hafter⟩ := h
    refine .inr ⟨(Option.some.inj hafter).symm, hfresh.2, ?_⟩
    rintro id other hother ⟨hprincipal, hdirectory, hkey⟩
    apply hknown
    rw [Table.any_eq_true]
    refine ⟨id, other, hother, ?_⟩
    simp only [hprincipal, hdirectory, hkey, beq_self_eq_true, Bool.and_self]

theorem Mutation.identity_prepare {principalId directoryId : Identity} {key : Text} {digest : Digest}
    (h : mutation.identity = some (.prepare principalId directoryId key, digest)) :
    ∃ batch, mutation = .putPrepare batch := by
  cases mutation with
  | putPrepare batch => exact ⟨batch, rfl⟩
  | _ => cases h

theorem Committed.filesUnder_prepare (h : Committed db after mutation) (principalId directoryId : Identity)
    (key : Text) : FilesUnder db after mutation (.prepare principalId directoryId key) := by
  by_cases hprepare : ∃ batch, mutation = .putPrepare batch ∧ executePutPrepare batch db = some after
  · obtain ⟨batch, rfl, hexecute⟩ := hprepare
    rcases executePutPrepare_first hexecute with rfl | ⟨rfl, hfresh, hfirst⟩
    · exact .unchanged (fun _ _ => Iff.rfl) fun _ _ => rfl
    refine .inserted hfresh (fun _ _ => Iff.rfl) (fun _ _ => Iff.rfl) ?_ ?_
    · simp [Mutation.identity, and_assoc]
    · rintro ⟨rfl, rfl, rfl⟩
      exact hfirst
  · have hother : ∀ digest, mutation.identity ≠ some (.prepare principalId directoryId key, digest) := by
      intro digest hidentity
      obtain ⟨batch, rfl⟩ := Mutation.identity_prepare hidentity
      cases h with
      | putPrepare hexecute => exact hprepare ⟨batch, rfl, hexecute⟩
      | task _ htask _ _ => cases htask
    refine .kept (fun digest receipt => ?_) hother
    constructor
    · rintro ⟨id, new, hnew, habout, hdigest, hreceipt⟩
      rcases h.intent_origin hnew with ⟨old, hold, hevolves⟩ | ⟨batch, hmutation, hexecute, _⟩
      · -- the rest of the life of an intent is left out of the receipt
        obtain ⟨_, _, rfl⟩ := hevolves.same
        exact ⟨id, old, hold, habout, hdigest, hreceipt⟩
      · exact absurd ⟨batch, hmutation, hexecute⟩ hprepare
    · rintro ⟨id, old, hold, habout, hdigest, hreceipt⟩
      obtain ⟨new, hnew, hevolves⟩ := h.intentsEvolve id old hold
      obtain ⟨_, _, rfl⟩ := hevolves.same
      exact ⟨id, _, hnew, habout, hdigest, hreceipt⟩

/-- A batch files the first record under its key, or leaves the records under the key alone. -/
theorem Committed.filesUnder (h : Committed db after mutation) (hreceipts : ReceiptsCommitted db)
    (key : IdempotencyKey) : FilesUnder db after mutation key := by
  by_cases hprepare : ∃ principalId directoryId name, key = .prepare principalId directoryId name
  · obtain ⟨principalId, directoryId, name, rfl⟩ := hprepare
    exact h.filesUnder_prepare principalId directoryId name
  · exact h.filesUnder_records hreceipts fun principalId directoryId name hkey =>
      hprepare ⟨principalId, directoryId, name, hkey⟩

end FilesUnder

/-! ### Answers -/

section Replays

variable {db : Database} {token : AuthenticatedToken} {key : Text} {digest : Digest} {receipt : Receipt}

theorem filed_of_replay {κ α : Type} [DecidableEq κ] {table : Table κ α} {about : κ → α → Prop} {filed : α → Digest}
    {test : (Sigma fun _ : κ => α) → Bool} {status : Nat} {message : String} (receiptOf : κ → α → Receipt)
    (h : ((table.entries.find? test).map fun row =>
      if filed row.2 ≠ digest then Response.error status message else .ok (receiptOf row.1 row.2)) = some (.ok receipt))
    (habout : ∀ row, test row = true → about row.1 row.2) :
    Filed table about filed (fun id row => (receiptOf id row).pinned) digest receipt.pinned := by
  obtain ⟨row, hfind, hresponse⟩ := Option.map_eq_some_iff.mp h
  split_ifs at hresponse with hdigest
  cases hresponse
  exact ⟨row.1, row.2, Table.mem_entries_iff.mp (List.mem_of_find?_eq_some hfind), habout row (List.find?_some hfind),
    not_not.mp hdigest, rfl⟩

theorem recorded_of_prepareResponse {request : PrepareRequest}
    (h : prepareResponse token request db = some (.ok receipt)) :
    db.Recorded (.prepare token.principalId request.directoryId request.idempotencyKey) request.requestSha256
      receipt.pinned := by
  obtain ⟨found, hfound, hresponse⟩ := Option.map_eq_some_iff.mp h
  obtain ⟨row, hfind, rfl⟩ := Option.map_eq_some_iff.mp hfound
  rw [replayResponse] at hresponse
  split_ifs at hresponse with hdigest hstate
  cases hresponse
  have habout := List.find?_some hfind
  simp only [Bool.and_eq_true, beq_iff_eq] at habout
  exact ⟨row.1, row.2, Table.mem_entries_iff.mp (List.mem_of_find?_eq_some hfind),
    ⟨habout.1.1, habout.1.2, habout.2⟩, not_not.mp hdigest, rfl⟩

theorem recorded_of_putReceiptResponse {intentId : Identity}
    (h : putReceiptResponse db intentId digest = some (.ok receipt)) :
    db.Recorded (.commit intentId) digest receipt.pinned := by
  unfold putReceiptResponse at h
  split at h
  · rename_i row intent hrow hintent
    split_ifs at h with hstate hdigest
    · cases h
    · cases h
      exact ⟨intent, hintent, not_not.mp hstate, intentId, row, hrow, rfl, not_not.mp hdigest, rfl⟩
  · cases h

theorem recorded_of_issueResponse {request : IssueRequest} (h : issueResponse db token request = some (.ok receipt)) :
    db.Recorded (.issue token.id request.idempotencyKey) request.requestSha256 receipt.pinned := by
  unfold issueResponse at h
  split at h
  · cases h
  · rename_i row hrow
    split at h
    · cases h
    · split_ifs at h with hconflict hverifier
      · cases h
      · cases h
      · cases h
        rw [not_or, not_not] at hconflict
        exact ⟨_, row, hrow, rfl, hconflict.1, rfl⟩

theorem recorded_of_policyReceiptResponse {kind : PolicyKind}
    (h : policyReceiptResponse db kind token.id key digest = some (.ok receipt)) :
    db.Recorded (.policy kind token.id key) digest receipt.pinned := by
  apply filed_of_replay Receipt.policy h
  intro row htest
  simp only [Bool.and_eq_true, beq_iff_eq] at htest
  exact ⟨htest.1.2, htest.1.1, htest.2⟩

end Replays

/-- The digest and the receipt were filed under the key at some moment so far. -/
def RecordedBefore (key : IdempotencyKey) (digest : Digest) (receipt : Receipt) (now : Instant) : Prop :=
  ReadBefore now fun db => db.Recorded key digest receipt.pinned

section Handlers

variable {prims : Primitives} {failed : Identity → Nat → Option Nat → Instant → Prop} {token : AuthenticatedToken}
  {key : IdempotencyKey} {digest : Digest} {now : Instant}

/-- A handler that answers what its replay query finds answers what is filed. -/
theorem KeepsTo.recorded {handler : Handler} {respond : Database → Option Response}
    (h : KeepsTo failed prims (Replays respond) handler now)
    (hrecorded : ∀ db receipt, respond db = some (.ok receipt) → db.Recorded key digest receipt.pinned) :
    KeepsTo failed prims (RecordedBefore key digest) handler now := by
  apply Program.Promises.mono h
  intro response last _ hreplays receipt hok
  obtain ⟨past, hpast, hresponse⟩ := hreplays receipt hok
  exact ⟨past, hpast, hrecorded past.state receipt hresponse⟩

/-- An operation with a key succeeds only with what is filed under its key and digest. -/
theorem keeps_handle_recorded (operation : Operation) (hidentity : operation.identity token = some (key, digest)) :
    KeepsTo failed prims (RecordedBefore key digest) (operation.handle prims token) now := by
  cases operation with
  | prepare request =>
      cases hidentity
      exact (keeps_prepare prims token request).recorded fun _ _ => recorded_of_prepareResponse
  | commit request =>
      cases hidentity
      exact (keeps_commit prims token request).recorded fun _ _ => recorded_of_putReceiptResponse
  | create request =>
      cases hidentity
      apply (keeps_create prims token request).recorded
      intro db receipt hresponse
      exact filed_of_replay Receipt.directoryCreate hresponse fun row htest => by simpa using htest
  | remove request =>
      cases hidentity
      apply (keeps_remove prims token request).recorded
      intro db receipt hresponse
      exact filed_of_replay Receipt.remove hresponse fun row htest => by simpa using htest
  | rename request =>
      cases hidentity
      apply (keeps_rename prims token request).recorded
      intro db receipt hresponse
      exact filed_of_replay Receipt.rename hresponse fun row htest => by simpa using htest
  | issue request =>
      cases hidentity
      exact (keeps_issue prims token request).recorded fun _ _ => recorded_of_issueResponse
  | replaceAcl request =>
      cases hidentity
      exact (keeps_replaceAcl prims token request).recorded fun _ _ => recorded_of_policyReceiptResponse
  | replacePlacements request =>
      cases hidentity
      exact (keeps_replacePlacements prims token request).recorded fun _ _ => recorded_of_policyReceiptResponse
  | _ => cases hidentity

end Handlers

/-! ### Along a run -/

/-- What every moment of a run has behind it: records stay, and there is one under a key at most. -/
structure FiledOnce (now : Instant) : Prop where
  receipts : ReceiptsCommitted now.state
  once : ∀ {key digest receipt other answer}, now.state.Recorded key digest receipt →
    now.state.Recorded key other answer → other = digest ∧ answer = receipt
  kept : now.Related fun before after => ∀ key digest receipt, before.Recorded key digest receipt →
    after.Recorded key digest receipt

section Steps

variable {now : Instant} {after : Database} {mutation : Mutation}

theorem FilesUnder.recorded {db : Database} {key : IdempotencyKey} (h : FilesUnder db after mutation key)
    {digest : Digest} {receipt : Receipt} (hrecorded : db.Recorded key digest receipt) :
    after.Recorded key digest receipt := by
  cases h with
  | unchanged hsame _ => exact (hsame digest receipt).mpr hrecorded
  | filed _ hnone _ => exact absurd hrecorded (hnone digest receipt)

theorem FiledOnce.commit (h : FiledOnce now) (hcommitted : Committed now.state after mutation) :
    FiledOnce (now.advance (some mutation) after) where
  receipts := hcommitted.receiptsCommitted h.receipts
  once := by
    intro key digest receipt other answer hrecorded hother
    cases hcommitted.filesUnder h.receipts key with
    | unchanged hsame _ => exact h.once ((hsame digest receipt).mp hrecorded) ((hsame other answer).mp hother)
    | filed _ _ hfiled =>
        obtain ⟨rfl, rfl⟩ := (hfiled digest receipt).mp hrecorded
        obtain ⟨rfl, rfl⟩ := (hfiled other answer).mp hother
        exact ⟨rfl, rfl⟩
  kept := h.kept.advance (fun _ _ _ _ hrecorded => hrecorded)
    (fun hfirst hsecond key digest receipt hrecorded => hsecond key digest receipt (hfirst key digest receipt hrecorded))
    fun key _ _ => (hcommitted.filesUnder h.receipts key).recorded

theorem Database.recorded_of_journal {db : Database} (hjournal : after.journal = db.journal) (key : IdempotencyKey)
    (digest : Digest) (receipt : Receipt) : after.Recorded key digest receipt ↔ db.Recorded key digest receipt := by
  cases key <;> simp only [Database.Recorded, hjournal]

theorem Drift.journal_eq {db : Database} (h : Drift db after) : after.journal = db.journal := by
  obtain ⟨_, _, _, rfl⟩ := h
  rfl

theorem FiledOnce.drift (h : FiledOnce now) (hdrift : Drift now.state after) : FiledOnce (now.advance none after) := by
  have hjournal := hdrift.journal_eq
  have hsame := Database.recorded_of_journal hjournal
  constructor
  · intro id receipt hreceipt
    change after.journal.putReceipts.lookup id = some receipt at hreceipt
    rw [hjournal] at hreceipt
    obtain ⟨intent, hintent, hcommitted⟩ := h.receipts id receipt hreceipt
    refine ⟨intent, ?_, hcommitted⟩
    change after.journal.putIntents.lookup id = some intent
    rw [hjournal]
    exact hintent
  · intro key digest receipt other answer hrecorded hother
    exact h.once ((hsame key digest receipt).mp hrecorded) ((hsame key other answer).mp hother)
  · apply h.kept.advance (fun _ _ _ _ hrecorded => hrecorded)
    · intro key digest receipt hrecorded
      exact (hsame key digest receipt).mpr hrecorded
    · intro first second third hfirst hsecond key digest receipt hrecorded
      exact hsecond key digest receipt (hfirst key digest receipt hrecorded)

end Steps

section Runs

variable {prims : Primitives} {start : Database} {system : ControlState} {permit : Instant → Mutation → Prop}

theorem Bootstrapped.not_recorded (hstart : Bootstrapped prims start) (key : IdempotencyKey) (digest : Digest)
    (receipt : Receipt) : ¬start.Recorded key digest receipt := by
  obtain ⟨next, hjournal⟩ := hstart.journal
  intro hrecorded
  cases key with
  | commit intentId =>
      obtain ⟨intent, hintent, _⟩ := hrecorded
      rw [hjournal] at hintent
      cases hintent
  | _ =>
      obtain ⟨id, row, hrow, _⟩ := hrecorded
      rw [hjournal] at hrow
      cases hrow

theorem Bootstrapped.filedOnce (hstart : Bootstrapped prims start) : FiledOnce ⟨start, []⟩ := by
  constructor
  · intro id receipt hreceipt
    obtain ⟨next, hjournal⟩ := hstart.journal
    dsimp only at hreceipt
    rw [hjournal] at hreceipt
    cases hreceipt
  · intro key digest receipt other answer hrecorded
    exact absurd hrecorded (hstart.not_recorded key digest receipt)
  · intro first second hfirst hsecond key digest receipt hrecorded
    have hend := Moment.before_start_iff.mp hsecond
    subst hend
    rw [Moment.before_start_iff.mp hfirst] at hrecorded
    exact hrecorded

theorem filedOnce_of_reachable (hstart : Bootstrapped prims start) (hrun : Reachable prims permit start system) :
    FiledOnce system.toMoment := by
  apply Reachable.guarded_invariant FiledOnce _ _ hstart.filedOnce hrun
  · intro moment after hfiled hdrift
    exact hfiled.drift hdrift
  · intro moment mutation after hfiled _ _ hcommitted
    exact hfiled.commit hcommitted

/-- The batch that filed what is recorded under the key, as the first one under it. -/
def FiledBy (key : IdempotencyKey) (digest : Digest) (receipt : Receipt) (now : Instant) : Prop :=
  ∃ (past : Instant) (mutation : Mutation) (after : Database), (past.advance (some mutation) after).Before now ∧
    mutation.identity = some (key, digest) ∧ (∀ other answer, ¬past.state.Recorded key other answer) ∧
    after.Recorded key digest receipt

theorem FiledBy.later {key : IdempotencyKey} {digest : Digest} {receipt : Receipt} {now later : Instant}
    (h : FiledBy key digest receipt now) (hbefore : now.Before later) : FiledBy key digest receipt later := by
  obtain ⟨past, mutation, after, hpast, hrest⟩ := h
  exact ⟨past, mutation, after, hpast.trans hbefore, hrest⟩

theorem filedBy_of_recorded (hstart : Bootstrapped prims start) (hrun : Reachable prims permit start system)
    {key : IdempotencyKey} {digest : Digest} {receipt : Receipt}
    (hrecorded : system.state.Recorded key digest receipt) : FiledBy key digest receipt system.toMoment := by
  have hall : FiledOnce system.toMoment ∧ ∀ digest receipt, system.state.Recorded key digest receipt →
      FiledBy key digest receipt system.toMoment := by
    apply Reachable.guarded_invariant (fun now => FiledOnce now ∧ ∀ digest receipt,
      now.state.Recorded key digest receipt → FiledBy key digest receipt now) _ _ _ hrun
    · intro moment after hfiled hdrift
      obtain ⟨honce, hby⟩ := hfiled
      refine ⟨honce.drift hdrift, fun digest receipt hrecorded => ?_⟩
      have hbefore := (Database.recorded_of_journal hdrift.journal_eq key digest receipt).mp hrecorded
      exact (hby digest receipt hbefore).later ((Moment.Before.refl moment).advance none after)
    · intro moment mutation after hfiled _ _ hcommitted
      obtain ⟨honce, hby⟩ := hfiled
      refine ⟨honce.commit hcommitted, fun digest receipt hrecorded => ?_⟩
      cases hcommitted.filesUnder honce.receipts key with
      | unchanged hsame _ =>
          have hbefore := (hsame digest receipt).mp hrecorded
          exact (hby digest receipt hbefore).later ((Moment.Before.refl moment).advance (some mutation) after)
      | filed hidentity hnone hfiled =>
          obtain ⟨rfl, rfl⟩ := (hfiled digest receipt).mp hrecorded
          exact ⟨moment, mutation, after, .refl _, hidentity, hnone, hrecorded⟩
    · refine ⟨hstart.filedOnce, fun digest receipt hrecorded => ?_⟩
      exact absurd hrecorded (hstart.not_recorded key digest receipt)
  exact hall.2 digest receipt hrecorded

/-- In every run requests are idempotent, whatever is retried and whatever commits in between: under each key there is
at most one record, which stays with its digest and its receipt for good, and of two batches under one key at most one
takes effect. -/
theorem mutations_apply_once (hstart : Bootstrapped prims start) (hrun : Reachable prims permit start system)
    (key : IdempotencyKey) :
    (∀ digest receipt other answer, system.state.Recorded key digest receipt → system.state.Recorded key other answer →
      other = digest ∧ answer = receipt) ∧
    (∀ past : Instant, past.Before system.toMoment → ∀ digest receipt, past.state.Recorded key digest receipt →
      system.state.Recorded key digest receipt) ∧
    ∀ (first second : Instant) mutation mutation' after after' digest digest',
      (first.advance (some mutation) after).Before second →
      (second.advance (some mutation') after').Before system.toMoment →
      mutation.identity = some (key, digest) → mutation'.identity = some (key, digest') →
        after = first.state ∨ after' = second.state := by
  have hfiled := filedOnce_of_reachable hstart hrun
  refine ⟨fun digest receipt other answer hrecorded hother => hfiled.once hrecorded hother,
    fun past hpast digest receipt => hfiled.kept past system.toMoment hpast (.refl _) key digest receipt, ?_⟩
  intro first second mutation mutation' after after' digest digest' hfirst hsecond hidentity hidentity'
  have hlast : second.Before system.toMoment :=
    ((Moment.Before.refl second).advance (some mutation') after').trans hsecond
  have hearly : first.Before system.toMoment :=
    (((Moment.Before.refl first).advance (some mutation) after).trans hfirst).trans hlast
  obtain ⟨_, hrun₁, _, rfl⟩ := Machine.runs_of_before hrun hearly
  obtain ⟨_, hrun₂, _, rfl⟩ := Machine.runs_of_before hrun hlast
  have hfiled₁ := filedOnce_of_reachable hstart hrun₁
  have hfiled₂ := filedOnce_of_reachable hstart hrun₂
  obtain ⟨_, _, hcommitted₁⟩ := hrun.committed (hfirst.trans hlast)
  obtain ⟨_, _, hcommitted₂⟩ := hrun.committed hsecond
  cases hcommitted₁.filesUnder hfiled₁.receipts key with
  | unchanged _ hidle => exact .inl (hidle digest hidentity)
  | filed _ _ hnew =>
      -- what the first batch filed is still there when the second one comes
      have hrecorded := hfiled₂.kept _ _ hfirst (.refl _) key _ _ ((hnew _ _).mpr ⟨rfl, rfl⟩)
      cases hcommitted₂.filesUnder hfiled₂.receipts key with
      | unchanged _ hidle => exact .inr (hidle digest' hidentity')
      | filed _ hnone _ => exact absurd hrecorded (hnone _ _)

/-- Along a run to `system`, an operation in the hands of `token` was served and answered. -/
def Answered (prims : Primitives) (permit : Instant → Mutation → Prop) (start : Database) (system : ControlState)
    (token : AuthenticatedToken) (operation : Operation) (response : Response) : Prop :=
  ∃ (served : ControlState) (index : Nat), Reachable prims permit start served ∧
    served.threads[index]? = some (operation.handle prims token) ∧
    (controlPlane prims).Runs permit served system ∧ system.threads[index]? = some (Program.done response)

/-- A success reports what is filed under the key of the operation, and it is still filed. -/
theorem Answered.recorded (hstart : Bootstrapped prims start) {token : AuthenticatedToken} {operation : Operation}
    {key : IdempotencyKey} {digest : Digest} {receipt : Receipt}
    (h : Answered prims permit start system token operation (.ok receipt))
    (hidentity : operation.identity token = some (key, digest)) : system.state.Recorded key digest receipt.pinned := by
  obtain ⟨served, index, hserved, hthread, hrun, hdone⟩ := h
  have hkept : ∀ response first second, Moment.Before first second →
      (∀ receipt, response = Response.ok receipt → RecordedBefore key digest receipt first) →
        ∀ receipt, response = Response.ok receipt → RecordedBefore key digest receipt second := by
    intro response first second hbefore hfirst receipt hok
    exact (hfirst receipt hok).later hbefore
  have hkeeps : KeepsTo anyFailure prims (RecordedBefore key digest) (operation.handle prims token) served.toMoment :=
    keeps_handle_recorded operation hidentity
  obtain ⟨last, hlast, hpromises⟩ := Machine.promises_of_runs hkept hrun hthread hkeeps
  rw [hdone] at hlast
  cases hlast
  obtain ⟨past, hpast, hrecorded⟩ := hpromises receipt rfl
  exact (filedOnce_of_reachable hstart (hserved.trans hrun)).kept past system.toMoment hpast (.refl _) key digest _
    hrecorded

/-- Two operations under one key that both succeed, however they were interleaved with each other and with the rest of
the run, are one request, and both report the one receipt filed for it. -/
theorem successes_share_receipt (hstart : Bootstrapped prims start) {token token' : AuthenticatedToken}
    {operation operation' : Operation} {key : IdempotencyKey} {digest digest' : Digest} {receipt receipt' : Receipt}
    (hidentity : operation.identity token = some (key, digest))
    (hidentity' : operation'.identity token' = some (key, digest'))
    (hanswered : Answered prims permit start system token operation (.ok receipt))
    (hanswered' : Answered prims permit start system token' operation' (.ok receipt')) :
    system.state.Recorded key digest receipt.pinned ∧ digest' = digest ∧ receipt'.pinned = receipt.pinned := by
  have hrecorded := hanswered.recorded hstart hidentity
  have hrecorded' := hanswered'.recorded hstart hidentity'
  obtain ⟨_, _, hserved, _, hrun, _⟩ := hanswered
  exact ⟨hrecorded, (filedOnce_of_reachable hstart (hserved.trans hrun)).once hrecorded hrecorded'⟩

/-- A success was earned: a batch that carries the key and the digest of the operation committed in the run, as the first
one to file anything under the key, and filed the receipt that the operation reports. -/
theorem successes_were_applied (hstart : Bootstrapped prims start) {token : AuthenticatedToken} {operation : Operation}
    {key : IdempotencyKey} {digest : Digest} {receipt : Receipt}
    (hidentity : operation.identity token = some (key, digest))
    (hanswered : Answered prims permit start system token operation (.ok receipt)) :
    FiledBy key digest receipt.pinned system.toMoment := by
  have hrecorded := hanswered.recorded hstart hidentity
  obtain ⟨_, _, hserved, _, hrun, _⟩ := hanswered
  exact filedBy_of_recorded hstart (hserved.trans hrun) hrecorded

end Runs

namespace Sample

/-- A directory requested twice under one key, the second time before the first request has committed. -/
def retried : List (Machine.Event Request Database Answer) :=
  .request (createRequest 0 root [97]) :: advances 0 8 ++ complete 1 (createRequest 0 root [97]) ++ advances 0 16

theorem mutations_apply_once_retried :
    (∀ digest receipt other answer, (run retried).state.Recorded (.create tokenId (key 0)) digest receipt →
      (run retried).state.Recorded (.create tokenId (key 0)) other answer → other = digest ∧ answer = receipt) ∧
    (run retried).threads.length = 2 ∧ (run retried).trace.length = 1 := by
  have hreach := reachable_any_run retried (by
    intro change hmem
    simp only [retried, complete, advances, List.mem_append, List.mem_cons, List.mem_replicate, reduceCtorEq,
      and_false, or_self] at hmem)
  exact ⟨(mutations_apply_once bootstrapped_database hreach (.create tokenId (key 0))).1, by decide +kernel,
    by decide +kernel⟩

def authenticated : AuthenticatedToken := ⟨tokenId, principalId, root, 1000000000⟩

/-- The receipt that a handler has reported. -/
def succeeded (system : ControlState) (index : Nat) : Option Receipt :=
  match system.threads[index]? with
  | some (.done (.ok receipt)) => some receipt
  | _ => none

theorem exists_succeeded {system : ControlState} {index : Nat} (h : (succeeded system index).isSome = true) :
    ∃ receipt, system.threads[index]? = some (Program.done (.ok receipt)) := by
  unfold succeeded at h
  split at h
  · rename_i receipt hdone
    exact ⟨receipt, hdone⟩
  · cases h

section Append

variable (events more : List (Machine.Event Request Database Answer)) {index : Nat}
  (hindex : (run events).threads.length = index) (operation : Operation) {verifierSha256 : Digest}
  {token : AuthenticatedToken}
  (hauth : (run events).state.authenticate verifierSha256 = some token)
include hindex hauth

/-- A request is handed to its handler in two steps, if its bearer is accepted. -/
theorem served_thread :
    (run (events ++ [.request (.client verifierSha256 operation), .advance index])).threads[index]? =
      some (operation.handle prims token) := by
  subst hindex
  rw [run_append]
  simp only [Machine.performAll, List.foldl_cons, List.foldl_nil, Machine.perform, serve, List.getElem?_concat_length]
  simp only [hauth, List.getElem?_set_self', List.getElem?_concat_length]
  rfl

/-- A request made after `events` and answered by the end of the schedule. -/
theorem answered_append (hevents : ∀ change, Machine.Event.become change ∉ events)
    (hmore : ∀ change, Machine.Event.become change ∉ more) {response : Response}
    (hdone : (run (events ++ [.request (.client verifierSha256 operation), .advance index] ++ more)).threads[index]? =
      some (Program.done response)) :
    Answered prims anyBatch database
      (run (events ++ [.request (.client verifierSha256 operation), .advance index] ++ more)) token operation response := by
  refine ⟨_, _, ?_, served_thread events hindex operation hauth, ?_, hdone⟩
  · apply reachable_any_run
    intro change hmem
    rcases List.mem_append.mp hmem with hbefore | hrequest
    · exact absurd hbefore (hevents change)
    · simp only [List.mem_cons, reduceCtorEq, List.not_mem_nil, or_self] at hrequest
  · exact runs_append _ more fun change hmem => absurd hmem (hmore change)

end Append

/-- The directory of `retried`. -/
def retriedCreate : Operation := .create ⟨root, [97], none, key 0, .ofByte 31 0, fresh 0, fresh 1⟩

/-- The second request of `retried`, once it has been answered. -/
theorem answered_retried {receipt : Receipt} (h : (run retried).threads[1]? = some (Program.done (.ok receipt))) :
    Answered prims anyBatch database (run retried) authenticated retriedCreate (.ok receipt) :=
  answered_append (.request (createRequest 0 root [97]) :: advances 0 8) (advances 1 23 ++ advances 0 16)
    (by decide +kernel) retriedCreate (by decide +kernel) (by simp [advances]) (by simp [advances]) h

theorem successes_share_receipt_retried :
    ∃ receipt receipt', (run retried).threads[0]? = some (Program.done (.ok receipt)) ∧
      (run retried).threads[1]? = some (Program.done (.ok receipt')) ∧ receipt'.pinned = receipt.pinned := by
  obtain ⟨receipt, hreceipt⟩ := exists_succeeded (show (succeeded (run retried) 0).isSome = true by decide +kernel)
  obtain ⟨receipt', hreceipt'⟩ := exists_succeeded (show (succeeded (run retried) 1).isSome = true by decide +kernel)
  have hfirst : Answered prims anyBatch database (run retried) authenticated retriedCreate (.ok receipt) :=
    answered_append [] (advances 0 7 ++ complete 1 (createRequest 0 root [97]) ++ advances 0 16) rfl retriedCreate
      (by decide +kernel) (by simp) (by simp [complete, advances]) hreceipt
  exact ⟨receipt, receipt', hreceipt, hreceipt',
    (successes_share_receipt bootstrapped_database rfl rfl hfirst (answered_retried hreceipt')).2.2⟩

theorem successes_were_applied_retried :
    ∃ receipt, (run retried).threads[1]? = some (Program.done (.ok receipt)) ∧
      FiledBy (.create tokenId (key 0)) (.ofByte 31 0) receipt.pinned (run retried).toMoment := by
  obtain ⟨receipt, hreceipt⟩ := exists_succeeded (show (succeeded (run retried) 1).isSome = true by decide +kernel)
  exact ⟨receipt, hreceipt, successes_were_applied bootstrapped_database rfl (answered_retried hreceipt)⟩

end Sample

end Skydriver
