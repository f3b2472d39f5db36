import Skydriver.Client.Intact

/-!
# The head of the client catalog is closed

Whatever sequence of publications ran and wherever each of them stopped, the head that readers find belongs to a valid
checkpoint all of whose nodes are in place.  The operations make permitted changes only, so the store stays intact at
every stop.

One thing is assumed of the system: a node or head that exists can be read.  The store takes a failed read for damage
and removes the file.
-/

namespace Skydriver.Client

open Checked CatalogStore

/-- No read of a file that exists fails. -/
def Faults.Spare (faults : Faults) (files : Files) : Prop :=
  (files.head.isSome → faults.head = .none) ∧ ∀ path, (files.nodes.lookup path).isSome → faults.nodes path = .none

theorem Faults.spare_none (files : Files) : Faults.none.Spare files := ⟨fun _ => rfl, fun _ _ => rfl⟩

/-- Any change and any system call may fail, except the reads of files that exist. -/
def crashProne : Circumstances Files Change Reply Effect Answer where
  execute := Change.execute
  refuses _ _ := True
  answers effect files answer :=
    match effect, answer with
    | .readFiles, .faults faults => faults.Spare files
    | _, _ => True

/-! ### Operations that make permitted changes only -/

section Careful

variable {α β : Type} {prims : ClientPrimitives} {cipher : MetadataCache.MetadataCacheCipher} {files : Files}

variable (prims cipher) in
/-- The operation makes permitted changes only, and where it succeeds it ends with `post`. -/
def Careful (operation : Operation α) (post : α → Files → Prop) (files : Files) : Prop :=
  Program.Achieves crashProne (Permitted prims cipher) operation post (fun _ _ => True) files

theorem Careful.mono {operation : Operation α} {strong weak : α → Files → Prop}
    (h : Careful prims cipher operation strong files) (himp : ∀ value after, strong value after → weak value after) :
    Careful prims cipher operation weak files :=
  Program.Achieves.mono h himp fun _ _ _ => trivial

theorem careful_bind {operation : Operation α} {rest : α → Operation β} {post : β → Files → Prop} :
    Careful prims cipher (operation >>= rest) post files ↔
      Careful prims cipher operation (fun value after => Careful prims cipher (rest value) post after) files :=
  Program.achieves_bind

theorem careful_pure {value : α} {post : α → Files → Prop} (hpost : post value files) :
    Careful prims cipher (pure value) post files := hpost

theorem careful_throw {error : Error} {post : α → Files → Prop} : Careful prims cipher (throw error) post files :=
  trivial

theorem careful_attempt {context : String} {post : Unit → Files → Prop} (hpost : post () files) :
    Careful prims cipher (attempt context) post files :=
  achieves_attempt hpost fun _ => trivial

theorem careful_check {result : Except Error α} {post : α → Files → Prop}
    (hpost : ∀ value, result = .ok value → post value files) : Careful prims cipher (check result) post files :=
  achieves_check hpost fun _ _ => trivial

theorem careful_look {post : Files → Files → Prop} (hpost : post files files) : Careful prims cipher look post files :=
  hpost

theorem achieves_spareFaults {guard : Change → Files → Prop} {post : Faults → Files → Prop}
    {lost : Error → Files → Prop} (hpost : ∀ faults, faults.Spare files → post faults files) :
    Program.Achieves crashProne guard readFaults post lost files := by
  refine achieves_readFaults fun faults hfaults => hpost faults ?_
  rcases hfaults with hspare | rfl
  · exact hspare
  · exact Faults.spare_none files

theorem careful_readFaults {post : Faults → Files → Prop} (hpost : ∀ faults, faults.Spare files → post faults files) :
    Careful prims cipher readFaults post files :=
  achieves_spareFaults hpost

theorem careful_freshNonce {post : Bytes 12 → Files → Prop} (hpost : ∀ nonce, post nonce files) :
    Careful prims cipher freshNonce post files :=
  achieves_freshNonce hpost fun _ _ _ => trivial

theorem careful_listShard {shard : Text} {post : List NodePath → Files → Prop} (hpost : ∀ paths, post paths files) :
    Careful prims cipher (listShard shard) post files :=
  achieves_listShard hpost fun _ _ _ => trivial

theorem careful_tryChange {step : Change} {post : Option Reply → Files → Prop}
    (hpermitted : Permitted prims cipher step files) (hrefused : post none files)
    (hcommitted : ∀ after reply, step.execute files = some (after, reply) → post (some reply) after ∧ post none after) :
    Careful prims cipher (tryChange step) post files :=
  achieves_tryChange hpermitted (fun _ => hrefused) fun after reply hexecute =>
    ⟨(hcommitted after reply hexecute).1, fun _ => (hcommitted after reply hexecute).2⟩

theorem careful_change {step : Change} {context : String} {post : Reply → Files → Prop}
    (hpermitted : Permitted prims cipher step files)
    (hcommitted : ∀ after reply, step.execute files = some (after, reply) → post reply after) :
    Careful prims cipher (change step context) post files :=
  achieves_change hpermitted (fun _ => trivial) fun after reply hexecute =>
    ⟨hcommitted after reply hexecute, fun _ => trivial⟩

theorem careful_ignoring {operation : Operation α} (h : Careful prims cipher operation (fun _ _ => True) files) :
    Careful prims cipher (ignoring operation) (fun _ _ => True) files :=
  achieves_ignoring h

theorem careful_writePrivateFile {post : Unit → Files → Prop} (hpost : post () files) :
    Careful prims cipher writePrivateFile post files := by
  refine careful_bind.mpr (careful_attempt ?_)
  refine careful_bind.mpr (careful_attempt ?_)
  exact careful_attempt hpost

end Careful

/-! ### Reading an intact store -/

section Reads

variable {prims : ClientPrimitives} {store : CatalogStore} {files : Files} {faults : Faults}

theorem loadFrom_spare (h : Intact prims store.cipher files) (hspare : faults.Spare files)
    (henabled : store.enabled = true) {directoryId dataRoot : Text} (hidentity : IsIdentity 16 directoryId)
    (hroot : IsIdentity 32 dataRoot) :
    store.loadFrom prims files faults directoryId dataRoot =
        .ok (storedNode prims store.cipher files directoryId dataRoot) ∨
      (storedNode prims store.cipher files directoryId dataRoot = none ∧
        ∀ path, nodePath directoryId dataRoot = .ok path → files.nodes.lookup path = none) := by
  have hpath := nodePath_of_identity directoryId hroot
  cases hlookup : files.nodes.lookup ⟨dataRoot.take 2, directoryId ++ utf8 "-" ++ dataRoot ++ utf8 ".json"⟩ with
  | none =>
      refine .inr ⟨?_, fun path hfound => ?_⟩
      · refine Option.eq_none_iff_forall_ne_some.mpr fun node hnode => ?_
        obtain ⟨_, _, path, sealed, hfound, hpresent, _⟩ := storedNode_eq_some.mp hnode
        rw [hpath, Except.ok.injEq] at hfound
        rw [← hfound, hlookup] at hpresent
        cases hpresent
      · rw [hpath, Except.ok.injEq] at hfound
        rw [← hfound, hlookup]
  | some sealed =>
      obtain ⟨directoryId', dataRoot', node, hpath', hstored⟩ := h.nodes _ _ hlookup
      have hidentity' := (storedNode_eq_some.mp hstored).1
      obtain ⟨rfl, rfl⟩ := storedNode_address hidentity hidentity' hpath hpath'
      obtain ⟨_, _, path, content, hfound, hpresent, hbound, hopen⟩ := storedNode_eq_some.mp hstored
      refine .inl ?_
      rw [hstored, loadFrom_eq_some]
      exact ⟨henabled, hidentity, hroot, path, content, hfound, hpresent,
        hspare.2 path (Option.isSome_of_eq_some hpresent), hbound, hopen⟩

theorem loadHeadFrom_spare (h : Intact prims store.cipher files) (hspare : faults.Spare files) :
    store.loadHeadFrom prims files faults = .ok (storedHead prims store.cipher files) ∨ files.head = none := by
  cases hfile : files.head with
  | none => exact .inr rfl
  | some sealed =>
      obtain ⟨head, _, hhead, _⟩ := h.head sealed hfile
      have hnone : faults.head = none := hspare.1 (Option.isSome_of_eq_some hfile)
      obtain ⟨content, hcontent, hbound, hopen⟩ := storedHead_eq_some.mp hhead
      rw [hfile, Option.some.injEq] at hcontent
      subst hcontent
      refine .inl ?_
      rw [loadHeadFrom, hnone, hhead, hfile]
      simp [ensure, hbound, hopen]

/-- Looking for a node in an intact store finds what is stored; nothing is discarded. -/
theorem careful_foundNode (h : Intact prims store.cipher files) (henabled : store.enabled = true)
    {directoryId dataRoot : Text} (hidentity : IsIdentity 16 directoryId) (hroot : IsIdentity 32 dataRoot)
    {post : Option CatalogNode → Files → Prop}
    (hpost : post (storedNode prims store.cipher files directoryId dataRoot) files) :
    Careful prims store.cipher (otherwise (store.load prims directoryId dataRoot) (do
      store.discardNode directoryId dataRoot
      pure none)) post files := by
  refine achieves_otherwise (Program.achieves_bind.mpr (achieves_spareFaults fun faults hspare => ?_))
  refine Program.achieves_bind.mpr (achieves_look ?_)
  rcases loadFrom_spare h hspare henabled hidentity hroot with hload | ⟨hnone, habsent⟩
  · rw [hload]
    exact hpost
  · refine achieves_check (fun found hfound => ?_) fun error _ => ?_
    · cases found with
      | none => exact hnone ▸ hpost
      | some node =>
          obtain ⟨_, _, _, path, sealed, hpath, hlookup, _⟩ := loadFrom_eq_some.mp hfound
          rw [habsent path hpath] at hlookup
          cases hlookup
    · -- the file is missing, so that discarding it changes nothing
      refine careful_bind.mpr ?_
      rw [discardNode, if_pos henabled]
      refine careful_bind.mpr (careful_check fun path hpath => ?_)
      refine careful_bind.mpr (careful_change ?_ fun after reply hexecute => ?_)
      · intro directoryId' dataRoot' hreach hsame
        obtain ⟨node, hnode⟩ := h.stored_of_reachable hreach
        obtain ⟨hidentity', _⟩ := storedNode_eq_some.mp hnode
        obtain ⟨rfl, rfl⟩ := storedNode_address hidentity' hidentity hsame hpath
        rw [hnone] at hnode
        cases hnode
      · rw [Change.execute, habsent path hpath] at hexecute
        cases hexecute
        exact careful_pure (careful_pure (hnone ▸ hpost))

/-- Looking for the head in an intact store finds what is stored; nothing is discarded. -/
theorem careful_foundHead (h : Intact prims store.cipher files) {post : Option CatalogHead → Files → Prop}
    (hpost : post (storedHead prims store.cipher files) files) :
    Careful prims store.cipher (otherwise (store.loadHead prims) (do
      store.discardHead
      pure none)) post files := by
  refine achieves_otherwise (Program.achieves_bind.mpr (achieves_spareFaults fun faults hspare => ?_))
  refine Program.achieves_bind.mpr (achieves_look ?_)
  rcases loadHeadFrom_spare h hspare with hload | habsent
  · rw [hload]
    exact hpost
  · have hnone : storedHead prims store.cipher files = none := by
      refine Option.eq_none_iff_forall_ne_some.mpr fun head hhead => ?_
      obtain ⟨sealed, hsealed, _⟩ := storedHead_eq_some.mp hhead
      rw [habsent] at hsealed
      cases hsealed
    rw [hnone] at hpost
    refine achieves_check (fun found hfound => ?_) fun error _ => ?_
    · rw [loadHeadFrom, habsent] at hfound
      obtain ⟨_, hfound⟩ := ensure_bind_eq_ok.mp hfound
      cases hfound
      exact hpost
    · refine careful_bind.mpr ?_
      rw [discardHead]
      split
      · refine careful_bind.mpr (careful_change habsent fun after reply hexecute => ?_)
        rw [Change.execute, habsent] at hexecute
        cases hexecute
        exact careful_pure (careful_pure hpost)
      · exact careful_pure (careful_pure hpost)

end Reads

/-! ### Publishing nodes -/

section Publishing

variable {prims : ClientPrimitives} {store : CatalogStore} {files : Files}

variable (prims) in
/-- Nodes were added and nothing else happened. -/
structure Grows (cipher : MetadataCache.MetadataCacheCipher) (files after : Files) : Prop where
  intact : Intact prims cipher after
  head : after.head = files.head
  stored : ∀ directoryId dataRoot node, storedNode prims cipher files directoryId dataRoot = some node →
    storedNode prims cipher after directoryId dataRoot = some node

theorem Grows.refl {cipher : MetadataCache.MetadataCacheCipher} (h : Intact prims cipher files) :
    Grows prims cipher files files :=
  ⟨h, rfl, fun _ _ _ hnode => hnode⟩

theorem Grows.trans {cipher : MetadataCache.MetadataCacheCipher} {middle after : Files}
    (hfirst : Grows prims cipher files middle) (hsecond : Grows prims cipher middle after) :
    Grows prims cipher files after :=
  ⟨hsecond.intact, hsecond.head.trans hfirst.head, fun _ _ _ hnode => hsecond.stored _ _ _ (hfirst.stored _ _ _ hnode)⟩

theorem careful_writeNode (hlaws : prims.Laws) (h : Intact prims store.cipher files) {node : CatalogNode}
    (hvalid : validateNode prims node node.directoryId node.dataRoot = .ok ())
    (habsent : ∀ path, nodePath node.directoryId node.dataRoot = .ok path → files.nodes.lookup path = none) :
    Careful prims store.cipher (store.writeNode prims node) (fun _ after => Grows prims store.cipher files after ∧
      storedNode prims store.cipher after node.directoryId node.dataRoot = some node) files := by
  refine careful_bind.mpr (careful_check fun nodeBytes _ => ?_)
  refine careful_bind.mpr (careful_check fun encoded hencoded => ?_)
  refine careful_bind.mpr (careful_check fun path hpath => ?_)
  refine careful_bind.mpr (careful_attempt ?_)
  refine careful_bind.mpr (careful_freshNonce fun nonce => ?_)
  refine careful_bind.mpr (careful_check fun sealed hsealed => ?_)
  refine careful_bind.mpr (careful_writePrivateFile ?_)
  obtain ⟨hopen, hbound⟩ := openNode_sealFile hlaws hvalid hencoded hsealed
  have hpermitted : Permitted prims store.cipher (.linkNode path sealed) files :=
    ⟨_, _, node, hpath, hopen, hbound⟩
  have hfree := habsent path hpath
  refine careful_bind.mpr (careful_tryChange hpermitted careful_throw fun after reply hexecute => ?_)
  rw [Change.execute, hfree] at hexecute
  cases hexecute
  refine ⟨?_, careful_throw⟩
  refine careful_bind.mpr (careful_attempt ?_)
  refine careful_bind.mpr (careful_attempt ?_)
  refine careful_bind.mpr (careful_attempt ?_)
  refine careful_pure ⟨⟨h.link hfree hpermitted, rfl, ?_⟩, storedNode_link hpath hopen hbound⟩
  exact fun _ _ _ hstored => storedNode_insert hfree hstored

theorem careful_publishNode (hlaws : prims.Laws) (h : Intact prims store.cipher files) (henabled : store.enabled = true)
    {directory : CatalogCheckpointDirectory} (hdirectory : WellFormedDirectory prims.toPrimitives directory) :
    Careful prims store.cipher (store.publishNode prims (checkpointNode directory)) (fun _ after =>
      Grows prims store.cipher files after ∧ Stored prims store.cipher after directory) files := by
  have hvalid := validateNode_checkpointNode hdirectory
  refine careful_bind.mpr (careful_check fun _ _ => ?_)
  refine careful_bind.mpr (careful_foundNode h henabled hdirectory.identity hdirectory.rootIdentity ?_)
  cases hfound : storedNode prims store.cipher files directory.directoryId directory.dataRoot with
  | some existing =>
      refine careful_bind.mpr (careful_check fun existingBytes hexisting => ?_)
      refine careful_bind.mpr (careful_check fun nodeBytes hnode => ?_)
      refine careful_bind.mpr (careful_check fun _ hequal => ?_)
      rw [ensure_eq_ok, beq_iff_eq] at hequal
      subst hequal
      obtain rfl := hlaws.node _ _ _ (orFail_eq_ok.mp hexisting) (orFail_eq_ok.mp hnode)
      exact careful_pure ⟨Grows.refl h, hfound⟩
  | none =>
      refine careful_writeNode hlaws h hvalid fun path hpath => ?_
      cases hlookup : files.nodes.lookup path with
      | none => rfl
      | some sealed =>
          obtain ⟨directoryId, dataRoot, node, hpath', hstored⟩ := h.nodes path sealed hlookup
          obtain ⟨rfl, rfl⟩ := storedNode_address (storedNode_eq_some.mp hstored).1 hdirectory.identity hpath' hpath
          exact absurd (hfound.symm.trans hstored) (by simp)

theorem careful_publishNodes (hlaws : prims.Laws) (henabled : store.enabled = true)
    {directories : List CatalogCheckpointDirectory}
    (hdirectories : ∀ directory ∈ directories, WellFormedDirectory prims.toPrimitives directory)
    (h : Intact prims store.cipher files) :
    Careful prims store.cipher (store.publishNodes prims directories) (fun _ after =>
      Grows prims store.cipher files after ∧ ∀ directory ∈ directories, Stored prims store.cipher after directory)
      files := by
  induction directories generalizing files with
  | nil => exact careful_pure ⟨Grows.refl h, by simp⟩
  | cons directory directories ih =>
      obtain ⟨hdirectory, hdirectories⟩ := List.forall_mem_cons.mp hdirectories
      refine careful_bind.mpr ((careful_publishNode hlaws h henabled hdirectory).mono ?_)
      rintro _ middle ⟨hgrows, hstored⟩
      refine (ih hdirectories hgrows.intact).mono ?_
      rintro _ after ⟨hmore, hrest⟩
      exact ⟨hgrows.trans hmore, List.forall_mem_cons.mpr ⟨hmore.stored _ _ _ hstored, hrest⟩⟩

/-! ### Publishing the head -/

theorem careful_replaceHead (hlaws : prims.Laws) (h : Intact prims store.cipher files) {head : CatalogHead}
    {checkpoint : CatalogCheckpoint} (hvalid : validateHead head = .ok ())
    (hcomplete : Complete prims store.cipher files head checkpoint)
    (hlater : ∀ old, storedHead prims store.cipher files = some old → old.revisionId < head.revisionId) :
    Careful prims store.cipher (store.replaceHead prims head) (fun _ after => Intact prims store.cipher after ∧
      storedHead prims store.cipher after = some head ∧ Complete prims store.cipher after head checkpoint) files := by
  refine careful_bind.mpr (careful_check fun encoded hencoded => ?_)
  refine careful_bind.mpr (careful_freshNonce fun nonce => ?_)
  refine careful_bind.mpr (careful_check fun sealed hsealed => ?_)
  refine careful_bind.mpr (careful_writePrivateFile ?_)
  obtain ⟨hopen, hbound⟩ := openHead_sealFile hlaws hvalid hencoded hsealed
  have hpermitted : Permitted prims store.cipher (.renameHead sealed) files :=
    ⟨head, checkpoint, hopen, hbound, hcomplete, hlater⟩
  refine careful_bind.mpr (careful_change hpermitted fun after reply hexecute => ?_)
  cases hexecute
  refine careful_bind.mpr (careful_attempt (careful_pure ⟨h.rename hpermitted, ?_, ?_⟩))
  · exact storedHead_eq_some.mpr ⟨sealed, rfl, hbound, hopen⟩
  · exact hcomplete.mono fun _ _ hstored => hstored

/-- Publishing a complete head leaves it in place wherever the operation says so. -/
theorem careful_publishHeadLocked (hlaws : prims.Laws) (h : Intact prims store.cipher files) {head : CatalogHead}
    {checkpoint : CatalogCheckpoint} (hcomplete : Complete prims store.cipher files head checkpoint) :
    Careful prims store.cipher (store.publishHeadLocked prims head) (fun current after => current = true →
      Intact prims store.cipher after ∧ storedHead prims store.cipher after = some head ∧
        Complete prims store.cipher after head checkpoint) files := by
  refine careful_bind.mpr (careful_check fun _ hvalid => ?_)
  refine careful_bind.mpr (careful_foundHead h ?_)
  cases hfound : storedHead prims store.cipher files with
  | none =>
      refine (careful_replaceHead hlaws h hvalid hcomplete ?_).mono fun _ _ hafter _ => hafter
      rw [hfound]
      simp
  | some existing =>
      dsimp only
      split_ifs with hnewer hequal
      · exact careful_pure fun hfalse => absurd hfalse Bool.false_ne_true
      · refine careful_bind.mpr (careful_check fun existingBytes hexisting => ?_)
        refine careful_bind.mpr (careful_check fun headBytes hhead => ?_)
        refine careful_bind.mpr (careful_check fun _ hsame => ?_)
        rw [ensure_eq_ok, beq_iff_eq] at hsame
        subst hsame
        obtain rfl := hlaws.head _ _ _ (orFail_eq_ok.mp hexisting) (orFail_eq_ok.mp hhead)
        exact careful_pure fun _ => ⟨h, hfound, hcomplete⟩
      · refine (careful_replaceHead hlaws h hvalid hcomplete ?_).mono fun _ _ hafter _ => hafter
        intro old hold
        rw [hfound, Option.some.injEq] at hold
        subst hold
        have hne : existing.revisionId ≠ head.revisionId := fun heq => hequal (beq_iff_eq.mpr heq)
        exact UInt64.lt_of_le_of_ne (UInt64.not_lt.mp hnewer) hne

/-! ### Pruning -/

theorem isPrefixOf_of_shard {directoryId dataRoot : Text} {path : NodePath} {shard : UInt8}
    (hpath : nodePath directoryId dataRoot = .ok path) (hshard : path.shard = hexEncode [shard]) :
    (hexEncode [shard]).isPrefixOf dataRoot = true := by
  rw [nodePath, ensure_bind_eq_ok, Except.ok.injEq] at hpath
  rw [List.isPrefixOf_iff_prefix, ← hshard, ← hpath.2]
  exact List.take_prefix 2 dataRoot

/-- Files that are not listed as reachable may be removed one after the other. -/
theorem careful_pruneEntries (h : Intact prims store.cipher files) {head : CatalogHead} {checkpoint : CatalogCheckpoint}
    (hhead : storedHead prims store.cipher files = some head)
    (hcomplete : Complete prims store.cipher files head checkpoint) {reachable paths : List NodePath}
    (hreachable : ∀ path ∈ paths, ∀ directory ∈ checkpoint.directories,
      nodePath directory.directoryId directory.dataRoot = .ok path → path ∈ reachable) :
    Careful prims store.cipher (pruneEntries reachable paths) (fun _ _ => True) files := by
  induction paths generalizing files with
  | nil => exact careful_pure trivial
  | cons path paths ih =>
      obtain ⟨hpath, hpaths⟩ := List.forall_mem_cons.mp hreachable
      refine careful_bind.mpr (careful_attempt ?_)
      refine careful_bind.mpr (careful_attempt ?_)
      split
      · exact careful_bind.mpr (careful_pure (ih h hhead hcomplete hpaths))
      · next hstale =>
          have hpermitted : Permitted prims store.cipher (.removeNode path) files := by
            intro directoryId dataRoot hreach hsame
            obtain ⟨directory, hdirectory, rfl, rfl⟩ := hcomplete.of_reachable hhead hreach
            exact hstale (hpath directory hdirectory hsame)
          refine careful_bind.mpr (careful_change hpermitted fun after reply hexecute => ?_)
          rw [Change.execute] at hexecute
          split at hexecute
          · cases hexecute
            exact ih (h.erase hpermitted) hhead (hcomplete.erase hhead hpermitted) hpaths
          · cases hexecute
            exact ih h hhead hcomplete hpaths

theorem careful_loadGcShard {post : UInt8 → Files → Prop}
    (hpost : ∀ shard cursor, post shard { files with cursor }) :
    Careful prims store.cipher (store.loadGcShard prims) post files := by
  refine careful_bind.mpr (careful_readFaults fun faults _ => ?_)
  refine careful_bind.mpr (careful_look ?_)
  split
  · split
    · exact careful_pure (hpost _ files.cursor)
    · refine careful_bind.mpr (careful_tryChange trivial (careful_pure (hpost 0 files.cursor)) ?_)
      intro after reply hexecute
      rw [Change.execute] at hexecute
      split at hexecute <;> cases hexecute
      · exact ⟨careful_pure (hpost 0 none), careful_pure (hpost 0 none)⟩
      · exact ⟨careful_pure (hpost 0 files.cursor), careful_pure (hpost 0 files.cursor)⟩
  · exact careful_pure (hpost _ files.cursor)

theorem careful_publishGcShard {shard : UInt8} :
    Careful prims store.cipher (store.publishGcShard prims shard) (fun _ _ => True) files := by
  refine careful_bind.mpr (careful_freshNonce fun nonce => ?_)
  refine careful_bind.mpr (careful_check fun sealed _ => ?_)
  refine careful_bind.mpr (careful_writePrivateFile ?_)
  refine careful_bind.mpr (careful_change trivial fun after reply _ => ?_)
  exact careful_attempt trivial

/-- Pruning behind the checkpoint of the current head removes unreachable files only. -/
theorem careful_pruneOneShard (h : Intact prims store.cipher files) {head : CatalogHead}
    {checkpoint : CatalogCheckpoint} (hhead : storedHead prims store.cipher files = some head)
    (hcomplete : Complete prims store.cipher files head checkpoint) :
    Careful prims store.cipher (store.pruneOneShard prims checkpoint) (fun _ _ => True) files := by
  refine careful_bind.mpr (careful_loadGcShard fun shard cursor => ?_)
  refine careful_bind.mpr (careful_check fun reachable hreachable => ?_)
  refine careful_bind.mpr (careful_listShard fun order => ?_)
  refine careful_bind.mpr (careful_look ?_)
  refine careful_bind.mpr ((careful_pruneEntries (h.cursor cursor) hhead
    (hcomplete.mono fun _ _ hstored => hstored) ?_).mono fun _ _ _ => careful_publishGcShard)
  intro path hpath directory hdirectory hsame
  obtain ⟨_, hlisted⟩ := List.mem_filter.mp hpath
  rw [Bool.and_eq_true, beq_iff_eq] at hlisted
  obtain ⟨found, hfound, hok⟩ := exists_of_traverse_eq_ok hreachable
    (List.mem_filter.mpr ⟨hdirectory, isPrefixOf_of_shard hsame hlisted.1⟩)
  rw [hsame, Except.ok.injEq] at hok
  exact hok ▸ hfound

/-! ### Whole publications -/

theorem careful_publishHeadAndPrune (hlaws : prims.Laws) (h : Intact prims store.cipher files)
    {checkpoint : CatalogCheckpoint} (etag : Text) (hvalid : WellFormedCheckpoint prims.toPrimitives checkpoint)
    (hstored : ∀ directory ∈ checkpoint.directories, Stored prims store.cipher files directory) :
    Careful prims store.cipher (store.publishHeadAndPrune prims checkpoint etag) (fun _ _ => True) files := by
  refine careful_bind.mpr (careful_bind.mpr (careful_check fun head hhead => ?_))
  have hcomplete : Complete prims store.cipher files head checkpoint := by
    obtain ⟨_, _, hfields⟩ := bind_eq_ok.mp hhead
    cases hfields
    exact ⟨hvalid, ⟨rfl, rfl, rfl, rfl⟩, hstored⟩
  refine (careful_publishHeadLocked hlaws h hcomplete).mono fun current after hafter => ?_
  split
  · next hcurrent =>
      obtain ⟨hintact, hfound, hkept⟩ := hafter hcurrent
      exact careful_ignoring (careful_pruneOneShard hintact hfound hkept)
  · exact careful_pure trivial

theorem careful_acquireHeadLock {post : Unit → Files → Prop} (hpost : post () files) :
    Careful prims store.cipher acquireHeadLock post files := by
  refine careful_bind.mpr (careful_attempt ?_)
  refine careful_bind.mpr (careful_attempt ?_)
  exact careful_attempt hpost

theorem careful_publishCheckpoint (hlaws : prims.Laws) (h : Intact prims store.cipher files)
    (checkpoint : CatalogCheckpoint) (etag : Text) :
    Careful prims store.cipher (store.publishCheckpoint prims checkpoint etag) (fun _ _ => True) files := by
  refine careful_bind.mpr (careful_check fun _ hvalid => ?_)
  refine careful_bind.mpr (careful_check fun _ _ => ?_)
  have hwf := wellFormed_of_validate (orInvalidResponse_eq_ok.mp hvalid)
  split
  · next henabled =>
      refine careful_bind.mpr (careful_acquireHeadLock ?_)
      refine careful_bind.mpr ((careful_publishNodes hlaws henabled
        (fun _ hdirectory => hwf.directory hdirectory) h).mono ?_)
      rintro _ after ⟨hgrows, hstored⟩
      exact careful_publishHeadAndPrune hlaws hgrows.intact etag hwf hstored
  · exact careful_pure trivial

end Publishing

/-! ### Reconstruction -/

section Reconstruction

variable {prims : ClientPrimitives} {store : CatalogStore} {files : Files} {faults : Faults}
  {read : Text → Text → Except Error (Option CatalogNode)}

theorem walkNodes_collects {fuel : Nat} {pending : List PendingNode} {visited : List Text}
    {directories result : List CatalogCheckpointDirectory}
    (h : walkNodes read fuel pending visited directories = .ok result) :
    ∀ directory ∈ result, directory ∈ directories ∨ ∃ item node,
      read item.directoryId item.dataRoot = .ok (some node) ∧ directory = baseDirectory item node := by
  fun_induction walkNodes read fuel pending visited directories with
  | case1 =>
      cases h
      exact fun directory hdirectory => .inl hdirectory
  | case2 => cases h
  | case3 fuel item rest visited directories ih =>
      simp only [bind_eq_ok, orFail_eq_ok] at h
      obtain ⟨_, _, loaded, hread, node, rfl, children, _, h⟩ := h
      intro directory hdirectory
      rcases ih node children h directory hdirectory with hold | hnew
      · rcases List.mem_append.mp hold with hold | hlast
        · exact .inl hold
        · exact .inr ⟨item, node, hread, List.mem_singleton.mp hlast⟩
      · exact .inr hnew

theorem stored_of_loaded {item : PendingNode} {node : CatalogNode}
    (h : store.loadFrom prims files faults item.directoryId item.dataRoot = .ok (some node)) :
    store.enabled = true ∧ Stored prims store.cipher files (baseDirectory item node) := by
  obtain ⟨henabled, hidentity, hroot, path, sealed, hpath, hlookup, _, hbound, hopen⟩ := loadFrom_eq_some.mp h
  have hstored : storedNode prims store.cipher files item.directoryId item.dataRoot = some node :=
    storedNode_eq_some.mpr ⟨hidentity, hroot, path, sealed, hpath, hlookup, hbound, hopen⟩
  have hnode : checkpointNode (baseDirectory item node) = node := by
    obtain ⟨⟨hschema, hid, hdata⟩, _⟩ := validateNode_eq_ok.mp (storedNode_valid hstored)
    obtain ⟨schema, directoryId, dataRoot, entries⟩ := node
    subst hschema hid hdata
    simp [checkpointNode, baseDirectory, Function.comp_def]
  refine ⟨henabled, ?_⟩
  rw [Stored, hnode]
  exact hstored

theorem reconstructFrom_stored {head : CatalogHead} {base : CatalogCheckpoint}
    (h : store.reconstructFrom prims files faults head = .ok base) :
    store.enabled = true ∧ ∀ directory ∈ base.directories, Stored prims store.cipher files directory := by
  simp only [reconstructFrom, bind_eq_ok, orInvalidResponse_eq_ok, Except.ok.injEq] at h
  obtain ⟨directories, hwalk, _, hvalid, rfl⟩ := h
  have hloaded : ∀ directory ∈ (baseCheckpoint head directories).directories,
      store.enabled = true ∧ Stored prims store.cipher files directory := by
    intro directory hdirectory
    have hmember := (KeyOrder.sortByKey_perm _ _).mem_iff.mp hdirectory
    obtain ⟨item, node, hread, rfl⟩ := (walkNodes_collects hwalk directory hmember).resolve_left (by simp)
    exact stored_of_loaded hread
  obtain ⟨root, hroot, _⟩ := (wellFormed_of_validate hvalid).tree.root
  exact ⟨(hloaded root hroot).1, fun directory hdirectory => (hloaded directory hdirectory).2⟩

theorem baseChildren_eq_ok {directory : CatalogCheckpointDirectory} {entries : List CatalogCheckpointEntry}
    {children : List PendingNode} (h : pendingChildren directory entries = .ok children) :
    baseChildren directory.directoryId entries = .ok children := by
  induction entries generalizing children with
  | nil =>
      cases h
      rfl
  | cons entry entries ih =>
      rw [pendingChildren] at h
      rw [baseChildren]
      cases hkind : entry.kind with
      | file =>
          rw [hkind] at h
          exact ih h
      | directory =>
          simp only [hkind, bind_eq_ok, orFail_eq_ok, Except.ok.injEq] at h ⊢
          obtain ⟨childId, hchild, rest, hrest, rfl⟩ := h
          exact ⟨childId, hchild, rest, ih hrest, rfl⟩

/-- Where every node of a checkpoint can be read, the walk collects the checkpoint. -/
theorem walkNodes_restores {checkpoint : CatalogCheckpoint}
    (hvalid : WellFormedCheckpoint prims.toPrimitives checkpoint) {head : CatalogHead} (hnames : Names head checkpoint)
    (hread : ∀ directory ∈ checkpoint.directories,
      read directory.directoryId directory.dataRoot = .ok (some (checkpointNode directory)))
    {fuel : Nat} (hfuel : checkpoint.directories.length ≤ fuel) :
    ∃ directories, walkNodes read fuel [headPending head] [] [] = .ok directories ∧
      directories.Perm checkpoint.directories := by
  -- the walk of a delta from the checkpoint to itself visits the same nodes in the same order
  have hsame : ∀ source ∈ checkpoint.directories, ∀ directory ∈ checkpoint.directories,
      source.directoryId = directory.directoryId → source.dataRoot = directory.dataRoot →
        source.entries = directory.entries := by
    intro source hsource directory hdirectory hid _
    rw [hvalid.directoryOrder.eq_of_key hsource hdirectory hid]
  obtain ⟨visited, hvisited, hperm, _⟩ := walkTarget_restores [] [] hvalid hvalid hsame
  have hlength : visited.length = checkpoint.directories.length := by simpa using hperm.length_eq
  refine ⟨(visited.map Prod.snd).reverse, ?_, (List.reverse_perm _).trans hperm⟩
  have hstart : rootPending (deltaBetween checkpoint [] checkpoint []) = headPending head := by
    rw [headPending, hnames.rootDirectory, hnames.rootData]
    rfl
  have hwalk := Worklist.walk_induction
    (motive := fun pending (met result : List (PendingNode × CatalogCheckpointDirectory)) =>
      met.length ≤ result.length ∧ ∀ fuel, result.length ≤ met.length + fuel →
        walkNodes read fuel pending (met.map fun visit => visit.1.directoryId) (met.map Prod.snd).reverse =
          .ok (result.map Prod.snd).reverse) ?_ ?_ hvisited
  · rw [hstart] at hwalk
    exact hwalk.2 fuel (by simpa [hlength] using hfuel)
  · exact fun met => ⟨Nat.le_refl _, fun fuel _ => by cases fuel <;> rfl⟩
  · rintro item pending met result output children hnew _ hexpand ⟨hgrows, hrest⟩
    rw [List.length_cons] at hgrows
    refine ⟨by omega, fun fuel hfuel => ?_⟩
    obtain ⟨fuel, rfl⟩ : ∃ more, fuel = more + 1 := ⟨fuel - 1, by omega⟩
    simp only [expandPending, bind_eq_ok, orFail_eq_ok, ensure_eq_ok, beq_iff_eq, Except.ok.injEq,
      Prod.mk.injEq] at hexpand
    obtain ⟨source, hsource, _, hdata, listed, hlisted, rfl, rfl⟩ := hexpand
    obtain ⟨hmember, hid⟩ : source ∈ checkpoint.directories ∧ source.directoryId = item.directoryId := by
      rcases Option.or_eq_some_iff.mp hsource with hfound | ⟨_, hfound⟩
      · exact ⟨(deltaBetween_sublist [] [] checkpoint checkpoint).subset (List.mem_of_find?_eq_some hfound),
          by simpa using List.find?_some hfound⟩
      · exact ⟨List.mem_of_find?_eq_some hfound, by simpa using List.find?_some hfound⟩
    have hloaded : read item.directoryId item.dataRoot = .ok (some (checkpointNode source)) := by
      rw [← hid, ← hdata]
      exact hread source hmember
    have hrestored : baseDirectory item (checkpointNode source) = item.restore source := by
      rw [baseDirectory, checkpointNode_entries, PendingNode.restore, ← hid, ← hdata]
    have hchildren := baseChildren_eq_ok hlisted
    rw [show (item.restore source).directoryId = item.directoryId from hid] at hchildren
    rw [walkNodes, ensure_bind_eq_ok, hloaded]
    refine ⟨by simpa using hnew, ?_⟩
    simp only [ok_bind, some_orFail, hrestored, hchildren]
    simpa using hrest fuel (by simp only [List.length_cons]; omega)

/-- The checkpoint as a reconstruction sees it. -/
def withPlaceholders (checkpoint : CatalogCheckpoint) : CatalogCheckpoint :=
  { checkpoint with parentRevisionId := none, createdAt := 1 }

theorem validate_withPlaceholders {prims : Primitives} {checkpoint : CatalogCheckpoint}
    (h : WellFormedCheckpoint prims checkpoint) :
    validateCatalogCheckpoint prims (withPlaceholders checkpoint) = .ok () := by
  obtain ⟨hheader, hrest⟩ := validateCatalogCheckpoint_eq_ok.mp (validate_of_wellFormed h)
  have hplaceholders : WellFormedHeader (withPlaceholders checkpoint) :=
    ⟨hheader.schema, hheader.revision, (by decide : (1 : UInt64) ≠ 0), by simp [withPlaceholders], hheader.filesystem,
      hheader.rootDirectory, hheader.rootData, hheader.nonempty, hheader.directoryBound, hheader.entryBound⟩
  exact validateCatalogCheckpoint_eq_ok.mpr ⟨hplaceholders, hrest⟩

theorem Complete.length_le {head : CatalogHead} {checkpoint : CatalogCheckpoint}
    (h : Complete prims store.cipher files head checkpoint) :
    checkpoint.directories.length ≤ files.nodes.entries.length := by
  have hpaths : ∀ directory ∈ checkpoint.directories, ∃ path, nodePath directory.directoryId directory.dataRoot = .ok path ∧
      path ∈ files.nodes.keys := by
    intro directory hdirectory
    obtain ⟨_, _, path, sealed, hpath, hlookup, _⟩ := storedNode_eq_some.mp (h.stored directory hdirectory)
    exact ⟨path, hpath, AList.lookup_isSome.mp (Option.isSome_of_eq_some hlookup)⟩
  have : Nonempty NodePath := ⟨⟨[], []⟩⟩
  choose! path hpath hkey using hpaths
  have hnodup : (checkpoint.directories.map path).Nodup := by
    refine List.Nodup.map_on (fun left hleft right hright hsame => ?_)
      (List.Nodup.of_map _ h.valid.directoryOrder.nodup)
    have hidentity : ∀ directory ∈ checkpoint.directories, IsIdentity 16 directory.directoryId :=
      fun _ hdirectory => (h.valid.directory hdirectory).identity
    obtain ⟨hid, _⟩ := storedNode_address (hidentity left hleft) (hidentity right hright) (hpath left hleft)
      (hsame ▸ hpath right hright)
    exact h.valid.directoryOrder.eq_of_key hleft hright hid
  have hsubset : checkpoint.directories.map path ⊆ files.nodes.keys := by
    intro found hfound
    obtain ⟨directory, hdirectory, rfl⟩ := List.mem_map.mp hfound
    exact hkey directory hdirectory
  have hlength := (List.subperm_of_subset hnodup hsubset).length_le
  rwa [List.length_map, AList.keys, List.keys, List.length_map] at hlength

theorem reconstructFrom_complete (henabled : store.enabled = true) (hspare : faults.Spare files) {head : CatalogHead}
    {checkpoint : CatalogCheckpoint} (h : Complete prims store.cipher files head checkpoint) :
    store.reconstructFrom prims files faults head = .ok (withPlaceholders checkpoint) := by
  have hread : ∀ directory ∈ checkpoint.directories,
      store.loadFrom prims files faults directory.directoryId directory.dataRoot =
        .ok (some (checkpointNode directory)) := by
    intro directory hdirectory
    obtain ⟨hidentity, hroot, path, sealed, hpath, hlookup, hbound, hopen⟩ :=
      storedNode_eq_some.mp (h.stored directory hdirectory)
    exact loadFrom_eq_some.mpr ⟨henabled, hidentity, hroot, path, sealed, hpath, hlookup,
      hspare.2 path (Option.isSome_of_eq_some hlookup), hbound, hopen⟩
  obtain ⟨directories, hwalk, hperm⟩ := walkNodes_restores h.valid h.names hread (Nat.le_succ_of_le h.length_le)
  have hbase : baseCheckpoint head directories = withPlaceholders checkpoint := by
    rw [baseCheckpoint, KeyOrder.sortByKey_of_perm h.valid.directoryOrder hperm, withPlaceholders, h.names.filesystem,
      h.names.revision, h.names.rootDirectory, h.names.rootData, h.valid.header.schema]
  simp only [reconstructFrom, hwalk, ok_bind, hbase, validate_withPlaceholders h.valid, orInvalidResponse]

theorem achieves_reconstructCheckpoint {guard : Change → Files → Prop} (henabled : store.enabled = true)
    {head : CatalogHead} {checkpoint : CatalogCheckpoint} (h : Complete prims store.cipher files head checkpoint) :
    Program.Achieves crashProne guard (store.reconstructCheckpoint prims head)
      (fun base _ => base = withPlaceholders checkpoint) (fun _ _ => False) files := by
  refine Program.achieves_bind.mpr (achieves_spareFaults fun faults hspare => ?_)
  refine Program.achieves_bind.mpr (achieves_look ?_)
  rw [reconstructFrom_complete henabled hspare h]
  exact achieves_check (fun base hbase => (Except.ok.inj hbase).symm) fun error herror => by cases herror

end Reconstruction

/-! ### Every session -/

section Sessions

variable {prims : ClientPrimitives} {cipher : MetadataCache.MetadataCacheCipher}

/-- Applying a delta makes permitted changes only: what it does not publish was loaded from the store. -/
theorem careful_applyDelta {store : CatalogStore} {files : Files} (hlaws : prims.Laws)
    (h : Intact prims store.cipher files) (delta : CatalogDelta) (etag : Text) :
    Careful prims store.cipher (store.applyDelta prims delta etag) (fun _ _ => True) files := by
  refine careful_bind.mpr (careful_acquireHeadLock ?_)
  refine careful_bind.mpr (careful_bind.mpr (careful_readFaults fun _ _ => ?_))
  refine careful_bind.mpr (careful_look (careful_check fun found _ => ?_))
  refine careful_bind.mpr (careful_check fun head _ => ?_)
  refine careful_bind.mpr (careful_bind.mpr (careful_readFaults fun faults _ => ?_))
  refine careful_bind.mpr (careful_look (careful_check fun base hbase => ?_))
  refine careful_bind.mpr (careful_check fun checkpoint hcheckpoint => ?_)
  obtain ⟨henabled, hloaded⟩ := reconstructFrom_stored hbase
  obtain ⟨hdelta, hvalid, hsources⟩ := applyCatalogDelta_sources (orInvalidResponse_eq_ok.mp hcheckpoint)
  refine careful_bind.mpr ((careful_publishNodes hlaws henabled (wellFormed_of_validateCatalogDelta hdelta) h).mono ?_)
  rintro _ after ⟨hgrows, hpublished⟩
  refine careful_publishHeadAndPrune hlaws hgrows.intact etag (wellFormed_of_validate hvalid) ?_
  intro directory hdirectory
  obtain ⟨source, hsource, hid, hdata, hentries⟩ := hsources directory hdirectory
  have hnode : checkpointNode source = checkpointNode directory := by
    rw [checkpointNode, checkpointNode, hid, hdata, hentries]
  have hstored : Stored prims store.cipher after source := by
    rcases List.mem_append.mp hsource with hnew | hold
    · exact hpublished source hnew
    · exact hgrows.stored _ _ _ (hloaded source hold)
  rw [Stored, hid, hdata, hnode] at hstored
  exact hstored

variable (prims cipher) in
/-- The publications of one token's store; each may run with the cache enabled or disabled. -/
inductive Publication : Program Files Change Reply Effect Answer (Except Error Unit) → Prop where
  | checkpoint (enabled : Bool) (checkpoint : CatalogCheckpoint) (etag : Text) :
      Publication (publishCheckpoint prims ⟨cipher, enabled⟩ checkpoint etag).run
  | delta (enabled : Bool) (delta : CatalogDelta) (etag : Text) :
      Publication (applyDelta prims ⟨cipher, enabled⟩ delta etag).run

/-- A store without files. -/
def Files.empty : Files := ⟨∅, none, none⟩

theorem intact_empty : Intact prims cipher .empty :=
  ⟨fun path sealed hsealed => by simp [Files.empty] at hsealed, fun sealed hsealed => by cases hsealed⟩

variable (prims cipher) in
/-- What holds wherever a session stops. -/
structure HeadClosed (moment : Moment Files Change) : Prop where
  /-- A head file opens. -/
  head : moment.state.head.isSome → ∃ head, storedHead prims cipher moment.state = some head
  /-- The head is reconstructed to a valid checkpoint of its view. -/
  reconstructs : ∀ head, storedHead prims cipher moment.state = some head → ∃ checkpoint,
    Names head checkpoint ∧ validateCatalogCheckpoint prims.toPrimitives checkpoint = .ok () ∧
    ∀ result last, (reconstructCheckpoint prims ⟨cipher, true⟩ head).run.Runs crashProne moment (some result) last →
      result = .ok checkpoint
  /-- Every node reachable from the head is there. -/
  present : ∀ directoryId dataRoot, Reachable prims cipher moment.state directoryId dataRoot →
    ∃ node, storedNode prims cipher moment.state directoryId dataRoot = some node
  /-- No node was ever removed while the head reached it. -/
  collected : ∀ path before, (some (Change.removeNode path), before) ∈ moment.trace → ∀ directoryId dataRoot,
    Reachable prims cipher before directoryId dataRoot → nodePath directoryId dataRoot ≠ .ok path
  /-- The head never went back, nor away. -/
  monotone : ∀ past : Moment Files Change, past.Before moment → ∀ old, storedHead prims cipher past.state = some old →
    ∃ new, storedHead prims cipher moment.state = some new ∧ old.revisionId ≤ new.revisionId

/-- What the proof carries from change to change. -/
structure Accounted (prims : ClientPrimitives) (cipher : MetadataCache.MetadataCacheCipher)
    (moment : Moment Files Change) : Prop where
  intact : Intact prims cipher moment.state
  permitted : ∀ step before, (some step, before) ∈ moment.trace → Permitted prims cipher step before
  monotone : ∀ past : Moment Files Change, past.Before moment → ∀ old, storedHead prims cipher past.state = some old →
    ∃ new, storedHead prims cipher moment.state = some new ∧ old.revisionId ≤ new.revisionId

theorem Accounted.step {moment : Moment Files Change} (h : Accounted prims cipher moment) {step : Change}
    {after : Files} {reply : Reply} (hpermitted : Permitted prims cipher step moment.state)
    (hexecute : step.execute moment.state = some (after, reply)) :
    Accounted prims cipher (moment.advance (some step) after) := by
  refine ⟨h.intact.step hpermitted hexecute, fun other before hmember => ?_, fun past hpast old hold => ?_⟩
  · rcases List.mem_append.mp hmember with hearlier | hlast
    · exact h.permitted other before hearlier
    · cases List.mem_singleton.mp hlast
      exact hpermitted
  · rcases Moment.before_advance_iff.mp hpast with rfl | hbefore
    · exact ⟨old, hold, UInt64.le_refl _⟩
    · obtain ⟨middle, hmiddle, hle⟩ := h.monotone past hbefore old hold
      obtain ⟨new, hnew, hle'⟩ := storedHead_step hpermitted hexecute hmiddle
      exact ⟨new, hnew, UInt64.le_trans hle hle'⟩

theorem Accounted.headClosed {moment : Moment Files Change} (h : Accounted prims cipher moment) :
    HeadClosed prims cipher moment where
  head hsome := by
    obtain ⟨sealed, hsealed⟩ := Option.isSome_iff_exists.mp hsome
    obtain ⟨head, _, hhead, _⟩ := h.intact.head sealed hsealed
    exact ⟨head, hhead⟩
  reconstructs head hhead := by
    obtain ⟨sealed, hsealed, _⟩ := storedHead_eq_some.mp hhead
    obtain ⟨found, checkpoint, hfound, hcomplete⟩ := h.intact.head sealed hsealed
    rw [hhead, Option.some.injEq] at hfound
    subst hfound
    refine ⟨withPlaceholders checkpoint, ⟨hcomplete.names.filesystem, hcomplete.names.revision,
      hcomplete.names.rootDirectory, hcomplete.names.rootData⟩, validate_withPlaceholders hcomplete.valid, ?_⟩
    intro result last hrun
    have hachieves : Program.Achieves crashProne (Permitted prims cipher)
        (reconstructCheckpoint prims ⟨cipher, true⟩ head) (fun base _ => base = withPlaceholders checkpoint)
        (fun _ _ => False) moment.state := achieves_reconstructCheckpoint rfl hcomplete
    cases result with
    | ok base => exact congrArg Except.ok (hrun.ensured hachieves)
    | error error => exact (hrun.ensured hachieves).elim
  present _ _ hreach := h.intact.stored_of_reachable hreach
  collected path before hmember := h.permitted _ before hmember
  monotone := h.monotone

/-- In every session of publications the head stays closed: each publication may be of any revision, and may fail or be
cut off between any two of its file operations, as long as nodes and heads that exist can be read. -/
theorem headClosure (prims : ClientPrimitives) (hlaws : prims.Laws) (cipher : MetadataCache.MetadataCacheCipher)
    (moment : Moment Files Change) (h : Session crashProne (Publication prims cipher) .empty moment) :
    HeadClosed prims cipher moment := by
  have hfresh : Accounted prims cipher ⟨.empty, []⟩ := by
    refine ⟨intact_empty, by simp, fun past hpast old hold => ?_⟩
    rw [Moment.before_start_iff.mp hpast] at hold
    exact ⟨old, hold, UInt64.le_refl _⟩
  have hstarts : ∀ program (moment : Moment Files Change), Publication prims cipher program →
      Accounted prims cipher moment →
        program.Ensures crashProne (Permitted prims cipher) (fun _ _ => True) moment.state := by
    intro program moment hstart haccounted
    cases hstart with
    | checkpoint enabled checkpoint etag =>
        let store : CatalogStore := ⟨cipher, enabled⟩
        have hcareful : Careful prims store.cipher (store.publishCheckpoint prims checkpoint etag) (fun _ _ => True)
          moment.state := careful_publishCheckpoint hlaws haccounted.intact checkpoint etag
        exact Program.Ensures.mono hcareful fun _ _ _ => trivial
    | delta enabled delta etag =>
        let store : CatalogStore := ⟨cipher, enabled⟩
        have hcareful : Careful prims store.cipher (store.applyDelta prims delta etag) (fun _ _ => True)
          moment.state := careful_applyDelta hlaws haccounted.intact delta etag
        exact Program.Ensures.mono hcareful fun _ _ _ => trivial
  exact Accounted.headClosed (Session.invariant hfresh
    (fun _ _ _ _ haccounted hpermitted hexecute => haccounted.step hpermitted hexecute) hstarts h)

end Sessions

namespace Sample

/-- The text of a value in a document. -/
def quoted (text : Text) : Text := [34] ++ text ++ [34]

def directory : CatalogCheckpointDirectory where
  directoryId := hexEncode (Bytes.ofByte 15 1).val
  parentDirectoryId := none
  name := []
  dataRoot := hexEncode Renamed.childRoot.val
  entries := []

/-- A filesystem whose root directory is empty. -/
def checkpoint : CatalogCheckpoint where
  schema := catalogCheckpointSchema
  filesystemId := hexEncode (Bytes.ofByte 15 9).val
  revisionId := 1
  parentRevisionId := none
  rootDirectoryId := directory.directoryId
  rootDataRoot := directory.dataRoot
  createdAt := 1
  directories := [directory]

def etag : Text := quoted (utf8 "sha256:" ++ List.replicate 64 97)

def checkpointText : Text :=
  utf8 "\x7b\"schema\":" ++ quoted checkpoint.schema ++ utf8 ",\"filesystem_id\":" ++ quoted checkpoint.filesystemId ++
    utf8 ",\"revision_id\":1,\"parent_revision_id\":null,\"root_directory_id\":" ++ quoted directory.directoryId ++
    utf8 ",\"root_data_root\":" ++ quoted directory.dataRoot ++
    utf8 ",\"created_at\":1,\"directories\":[\x7b\"directory_id\":" ++ quoted directory.directoryId ++
    utf8 ",\"parent_directory_id\":null,\"name\":\"\",\"data_root\":" ++ quoted directory.dataRoot ++
    utf8 ",\"entries\":[]\x7d]\x7d"

def nodeText : Text :=
  utf8 "\x7b\"schema\":" ++ quoted nodeSchema ++ utf8 ",\"directory_id\":" ++ quoted directory.directoryId ++
    utf8 ",\"data_root\":" ++ quoted directory.dataRoot ++ utf8 ",\"entries\":[]\x7d"

def envelope : CatalogEnvelope := ⟨envelopeSchema, hexEncode (polynomialDigest nodeText).val, checkpointNode directory⟩

def head : CatalogHead where
  schema := headSchema
  filesystemId := checkpoint.filesystemId
  revisionId := 1
  rootDirectoryId := directory.directoryId
  rootDataRoot := directory.dataRoot
  checkpointSha256 := hexEncode (polynomialDigest checkpointText).val
  etag := etag

def headText : Text :=
  utf8 "\x7b\"schema\":" ++ quoted headSchema ++ utf8 ",\"filesystem_id\":" ++ quoted head.filesystemId ++
    utf8 ",\"revision_id\":1,\"root_directory_id\":" ++ quoted head.rootDirectoryId ++
    utf8 ",\"root_data_root\":" ++ quoted head.rootDataRoot ++
    utf8 ",\"checkpoint_sha256\":" ++ quoted head.checkpointSha256 ++
    utf8 ",\"etag\":\"\\\"sha256:" ++ List.replicate 64 97 ++ utf8 "\\\"\"\x7d"

def headInEnvelope : CatalogHeadEnvelope := ⟨headEnvelopeSchema, hexEncode (polynomialDigest headText).val, head⟩

/-- The document of an envelope around the document of its content. -/
def wrapped (schema sha256 member content : Text) : Text :=
  utf8 "\x7b\"schema\":" ++ quoted schema ++ utf8 ",\"sha256\":" ++ quoted sha256 ++ utf8 "," ++ quoted member ++
    utf8 ":" ++ content ++ utf8 "\x7d"

def envelopeText : Text := wrapped envelope.schema envelope.sha256 (utf8 "node") nodeText

def headEnvelopeText : Text := wrapped headInEnvelope.schema headInEnvelope.sha256 (utf8 "head") headText

def tag (key : Bytes 32) (nonce : Bytes 12) (aad frame : List UInt8) : Bytes 16 :=
  (tryInto 16 ((polynomialDigest (key.val ++ nonce.val ++ aad ++ frame)).val.take 16)).getD (.zero 16)

/-- The documents of this filesystem, under a cipher that authenticates and does not hide. -/
def prims : ClientPrimitives where
  sha256 := polynomialDigest
  isNfc := fun _ => true
  encodeCheckpoint := fun found => if found = checkpoint then some checkpointText else none
  hkdf := fun _ key _ => some key
  encrypt := fun key nonce aad frame => some (⟨frame, rfl⟩, tag key nonce aad frame)
  decrypt := fun key nonce aad frame found => if found = tag key nonce aad frame then some ⟨frame, rfl⟩ else none
  encodeNode := fun found => if found = checkpointNode directory then some nodeText else none
  encodeEnvelope := fun found => if found = envelope then some envelopeText else none
  decodeEnvelope := fun bytes => if bytes = envelopeText then some envelope else none
  encodeHead := fun found => if found = head then some headText else none
  encodeHeadEnvelope := fun found => if found = headInEnvelope then some headEnvelopeText else none
  decodeHeadEnvelope := fun bytes => if bytes = headEnvelopeText then some headInEnvelope else none

theorem laws : prims.Laws where
  decrypts := by
    intro key nonce aad frame ciphertext found h
    cases h
    have hopens : prims.decrypt key nonce aad frame (tag key nonce aad frame) = some ⟨frame, rfl⟩ := if_pos rfl
    exact congrArg (Option.map Subtype.val) hopens
  envelope := by
    intro found bytes h
    simp only [prims, Option.ite_none_right_eq_some, Option.some.injEq] at h
    obtain ⟨rfl, rfl⟩ := h
    simp [prims]
  headEnvelope := by
    intro found bytes h
    simp only [prims, Option.ite_none_right_eq_some, Option.some.injEq] at h
    obtain ⟨rfl, rfl⟩ := h
    simp [prims]
  node := by
    intro left right bytes h h'
    simp only [prims, Option.ite_none_right_eq_some] at h h'
    exact h.1.trans h'.1.symm
  head := by
    intro left right bytes h h'
    simp only [prims, Option.ite_none_right_eq_some] at h h'
    exact h.1.trans h'.1.symm

def cipher : MetadataCache.MetadataCacheCipher := ⟨.ofByte 31 7⟩

def answer : Effect → Answer
  | .system _ => .done
  | .readFiles => .faults .none
  | .randomNonce => .nonce (.ofByte 11 1)
  | .listShard _ => .listing []

theorem answers (effect : Effect) (files : Files) : crashProne.answers effect files (answer effect) := by
  cases effect with
  | readFiles => exact Faults.spare_none files
  | _ => trivial

/-- One publication, cut off after some steps. -/
def publishFor (steps : Nat) (moment : Moment Files Change) : Moment Files Change :=
  (Program.runSteps Change.execute answer steps (publishCheckpoint prims ⟨cipher, true⟩ checkpoint etag).run moment).2

/-- A publication that is cut off, and one that comes to its end. -/
def published : Moment Files Change := publishFor 200 (publishFor 20 ⟨.empty, []⟩)

theorem session_published : Session crashProne (Publication prims cipher) .empty published := by
  have hcut : Session crashProne (Publication prims cipher) .empty (publishFor 20 ⟨.empty, []⟩) :=
    .call .fresh (.checkpoint true checkpoint etag) (Program.runs_runSteps answers 20 _ _)
  exact .call hcut (.checkpoint true checkpoint etag) (Program.runs_runSteps answers 200 _ _)

theorem headClosure_published :
    HeadClosed prims cipher published ∧ (storedHead prims cipher published.state).isSome = true :=
  ⟨headClosure prims laws cipher published session_published, by decide +kernel⟩

end Sample

end Skydriver.Client
