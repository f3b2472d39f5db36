import Skydriver.Control.Service

/-!
# The reference evaluator of authorization

`AuthorizationGraph::authorize` decides one request on an explicit graph of directories, groups and grants, with loops
that remember where they have been.  The control plane itself decides by one recursive query.  The graph that a database
describes has its directories, active principals, memberships and grants; the scope of a token is the row of the token
narrowed by every token it was derived from, since the evaluator knows no token chain.
-/

namespace Skydriver

/-! ### The evaluator -/

structure GraphDirectory where
  parentId : Option Identity
  aclInherits : Bool
deriving DecidableEq

structure Grant where
  directoryId : Identity
  subject : GrantSubject
  action : Action
deriving DecidableEq

structure TokenScope where
  principalId : Identity
  rootDirectoryId : Identity
  actions : List Action
  driverIds : Option (List Text)
  snapshotId : Option Identity
  expiresAt : Nat
  revoked : Bool
deriving DecidableEq

structure AuthorizationRequest where
  targetDirectoryId : Identity
  action : Action
  driverId : Option Text
  snapshotId : Option Identity
  now : Nat
deriving DecidableEq

inductive Denial where
  | principalInactive
  | tokenInactive
  | tokenAction
  | tokenDirectory
  | tokenDriver
  | tokenSnapshot
  | directoryGraph
  | acl
deriving DecidableEq, Repr

inductive Decision where
  | allowed
  | denied (denial : Denial)
deriving DecidableEq, Repr

structure AuthorizationGraph where
  activePrincipals : List Identity
  directories : Table Identity GraphDirectory
  groupMembers : List (Identity × List Identity)
  grants : List Grant

def Action.requiresDriver : Action → Bool
  | .driverUse => true
  | _ => false

def driverScopeAllows (token : TokenScope) (request : AuthorizationRequest) : Bool :=
  if request.action.requiresDriver && request.driverId.isNone then false
  else
    match token.driverIds, request.driverId with
    | some allowed, some driverId => allowed.contains driverId
    | some _, none => true
    | none, _ => true

def subjectMatches (subject : GrantSubject) (principalId : Identity) (groups : List Identity) : Bool :=
  match subject with
  | .principal candidate => candidate == principalId
  | .group candidate => groups.contains candidate

namespace AuthorizationGraph

/-- The loop of `in_subtree`; a directory without a row ends it, and so does one met twice. -/
def inSubtreeFrom (graph : AuthorizationGraph) (rootId : Identity) (visited : List Identity)
    (directoryId : Identity) : Bool :=
  if hvisited : visited.contains directoryId = true then false
  else if directoryId == rootId then true
  else
    match hfound : graph.directories.lookup directoryId with
    | none => false
    | some directory =>
        match directory.parentId with
        | none => false
        | some parentId => graph.inSubtreeFrom rootId (directoryId :: visited) parentId
termination_by graph.directories.unvisited visited
decreasing_by exact Table.unvisited_cons_lt hfound (by simpa using hvisited)

def inSubtree (graph : AuthorizationGraph) (rootId targetId : Identity) : Bool :=
  graph.inSubtreeFrom rootId [] targetId

def groupsFor (graph : AuthorizationGraph) (principalId : Identity) : List Identity :=
  graph.groupMembers.filterMap fun group => if group.2.contains principalId then some group.1 else none

/-- Some grant of the directory itself allows the action. -/
def grantsAt (graph : AuthorizationGraph) (principalId : Identity) (groups : List Identity) (action : Action)
    (directoryId : Identity) : Bool :=
  graph.grants.any fun grant =>
    grant.directoryId == directoryId && grant.action == action && subjectMatches grant.subject principalId groups

/-- The loop of `acl_allows`; a directory without a row, or met twice, is an error of the graph. -/
def aclAllowsFrom (graph : AuthorizationGraph) (principalId : Identity) (groups : List Identity) (action : Action)
    (visited : List Identity) (directoryId : Identity) : Except Unit Bool :=
  if hvisited : visited.contains directoryId = true then .error ()
  else
    match hfound : graph.directories.lookup directoryId with
    | none => .error ()
    | some directory =>
        if graph.grantsAt principalId groups action directoryId then .ok true
        else if !directory.aclInherits then .ok false
        else
          match directory.parentId with
          | none => .ok false
          | some parentId => graph.aclAllowsFrom principalId groups action (directoryId :: visited) parentId
termination_by graph.directories.unvisited visited
decreasing_by exact Table.unvisited_cons_lt hfound (by simpa using hvisited)

def aclAllows (graph : AuthorizationGraph) (principalId targetId : Identity) (action : Action) : Except Unit Bool :=
  graph.aclAllowsFrom principalId (graph.groupsFor principalId) action [] targetId

def authorize (graph : AuthorizationGraph) (principalId : Identity) (token : TokenScope)
    (request : AuthorizationRequest) : Decision :=
  if !graph.activePrincipals.contains principalId then .denied .principalInactive
  else if token.principalId != principalId || token.revoked || token.expiresAt ≤ request.now then
    .denied .tokenInactive
  else if !token.actions.contains request.action then .denied .tokenAction
  else if !graph.inSubtree token.rootDirectoryId request.targetDirectoryId then .denied .tokenDirectory
  else if !driverScopeAllows token request then .denied .tokenDriver
  else if token.snapshotId.isSome && token.snapshotId != request.snapshotId then .denied .tokenSnapshot
  else
    match graph.aclAllows principalId request.targetDirectoryId request.action with
    | .ok true => .allowed
    | .ok false => .denied .acl
    | .error () => .denied .directoryGraph

end AuthorizationGraph

/-! ### The graph of a database -/

namespace Database

/-- The graph that the tables describe. -/
def authorizationGraph (db : Database) : AuthorizationGraph where
  activePrincipals := (db.surroundings.principals.entries.filter fun row => row.2 == .active).map Sigma.fst
  directories := db.tree.directories.project fun row => ⟨row.parentId, row.aclInherits⟩
  groupMembers := (db.surroundings.groupMembers.map Prod.fst).dedup.map fun groupId =>
    (groupId, (db.surroundings.groupMembers.filter fun membership => membership.1 == groupId).map Prod.snd)
  grants := db.authority.grants.entries.map fun row => ⟨row.2.directoryId, row.2.subject, row.2.action⟩

/-- A token narrowed by the tokens it was derived from: it ends with the first of them, and it counts as revoked when one
of them is revoked, unsealed or another principal's. -/
def tokenScope (db : Database) (tokenId : Identity) : Option TokenScope :=
  (db.authority.tokens.lookup tokenId).map fun row =>
    { principalId := row.principalId
      rootDirectoryId := row.rootDirectoryId
      actions := row.actions
      driverIds := if row.drivers.isEmpty then none else some row.drivers
      snapshotId := row.snapshotId
      expiresAt := ((db.tokenChain tokenId).map TokenRow.expiresAt).foldl min row.expiresAt
      revoked := (db.tokenChain tokenId).any fun chain =>
        chain.sealedAt.isNone || chain.revokedAt.isSome || chain.principalId != row.principalId }

/-- The evaluator's decision on the graph of the database, for a request that names at most a driver. -/
def graphDecision (db : Database) (token : AuthenticatedToken) (directoryId : Identity) (action : Action)
    (driverId : Option Text) : Option Decision :=
  (db.tokenScope token.id).map fun scope =>
    db.authorizationGraph.authorize token.principalId scope ⟨directoryId, action, driverId, none, db.now⟩

/-- The foreign keys of the tables that authorization reads. -/
structure References (db : Database) : Prop where
  directoryParent : ∀ id row, db.tree.directories.lookup id = some row →
    ∀ parentId ∈ row.parentId, (db.tree.directories.lookup parentId).isSome
  tokenParent : ∀ id row, db.authority.tokens.lookup id = some row →
    ∀ parentId ∈ row.parentTokenId, (db.authority.tokens.lookup parentId).isSome
  tokenRoot : ∀ id row, db.authority.tokens.lookup id = some row →
    (db.tree.directories.lookup row.rootDirectoryId).isSome
  tokenPrincipal : ∀ id row, db.authority.tokens.lookup id = some row →
    (db.surroundings.principals.lookup row.principalId).isSome
  grantDirectory : ∀ id row, db.authority.grants.lookup id = some row →
    (db.tree.directories.lookup row.directoryId).isSome
  members : ∀ membership ∈ db.surroundings.groupMembers,
    (db.surroundings.groups.lookup membership.1).isSome ∧ (db.surroundings.principals.lookup membership.2).isSome

end Database

/-! ### What the loops compute -/

namespace GraphDirectory

/-- Where inherited grants come from. -/
def inheritsFrom (directory : GraphDirectory) : Option Identity :=
  if directory.aclInherits then directory.parentId else none

end GraphDirectory

namespace AuthorizationGraph

variable {graph : AuthorizationGraph} {principalId : Identity} {groups : List Identity} {action : Action}

theorem reaches_of_inSubtreeFrom {rootId directoryId : Identity} {visited : List Identity} {row : GraphDirectory}
    (hroot : graph.directories.lookup rootId = some row)
    (h : graph.inSubtreeFrom rootId visited directoryId = true) :
    ∃ steps, graph.directories.Reaches GraphDirectory.parentId steps directoryId rootId := by
  fun_induction inSubtreeFrom graph rootId visited directoryId with
  | case1 => cases h
  | case2 visited directoryId _ heq =>
      rw [beq_iff_eq] at heq
      subst heq
      exact ⟨0, .refl hroot⟩
  | case3 => cases h
  | case4 => cases h
  | case5 visited directoryId _ _ directory hfound parentId hparent ih =>
      obtain ⟨steps, hreach⟩ := ih h
      exact ⟨steps + 1, .step hfound hparent hreach⟩

/-- With the root among the directories, `in_subtree` is reachability along the parents. -/
theorem inSubtree_iff {rootId targetId : Identity} {row : GraphDirectory}
    (hroot : graph.directories.lookup rootId = some row) :
    graph.inSubtree rootId targetId = true ↔
      ∃ steps, graph.directories.Reaches GraphDirectory.parentId steps targetId rootId := by
  constructor
  · exact reaches_of_inSubtreeFrom hroot
  · intro hreach
    obtain ⟨steps, hreach⟩ := hreach
    refine Table.seek_complete (graph.inSubtreeFrom rootId) (fun id => id = rootId) ?_ ?_ hreach rfl
    · intro visited key hfresh hkey
      rw [inSubtreeFrom, dif_neg (by simpa using hfresh), if_pos (by simpa using hkey)]
    · intro visited key next row hfresh hkey hrow hparent
      rw [inSubtreeFrom, dif_neg (by simpa using hfresh), if_neg (by simpa using hkey)]
      split
      · rename_i hnone
        rw [hnone] at hrow
        cases hrow
      · rename_i directory hfound
        rw [hfound] at hrow
        cases hrow
        rw [hparent]

theorem reaches_of_aclAllowsFrom {directoryId : Identity} {visited : List Identity}
    (h : graph.aclAllowsFrom principalId groups action visited directoryId = .ok true) :
    ∃ steps above, graph.directories.Reaches GraphDirectory.inheritsFrom steps directoryId above ∧
      graph.grantsAt principalId groups action above = true := by
  fun_induction aclAllowsFrom graph principalId groups action visited directoryId with
  | case1 => cases h
  | case2 => cases h
  | case3 visited directoryId _ directory hfound hgrant => exact ⟨0, directoryId, .refl hfound, hgrant⟩
  | case4 => cases h
  | case5 => cases h
  | case6 visited directoryId _ directory hfound _ hinherits parentId hparent ih =>
      obtain ⟨steps, above, hreach, hgrant⟩ := ih h
      refine ⟨steps + 1, above, .step hfound ?_ hreach, hgrant⟩
      rw [GraphDirectory.inheritsFrom, if_pos (by simpa using hinherits), hparent]

/-- `acl_allows` finds a grant exactly when some directory within inheritance has one. -/
theorem aclAllowsFrom_iff {targetId : Identity} :
    graph.aclAllowsFrom principalId groups action [] targetId = .ok true ↔
      ∃ steps above, graph.directories.Reaches GraphDirectory.inheritsFrom steps targetId above ∧
        graph.grantsAt principalId groups action above = true := by
  constructor
  · exact reaches_of_aclAllowsFrom
  · intro hfound
    obtain ⟨steps, above, hreach, hgrant⟩ := hfound
    obtain ⟨top, htop⟩ := hreach.lookup_above
    have hloop := Table.seek_complete
      (fun visited key => graph.aclAllowsFrom principalId groups action visited key == .ok true)
      (fun id => (graph.directories.lookup id).isSome = true ∧ graph.grantsAt principalId groups action id = true)
      ?_ ?_ hreach ⟨by rw [htop]; rfl, hgrant⟩
    · simpa using hloop
    · intro visited key hfresh hhit
      obtain ⟨directory, hdirectory⟩ := Option.isSome_iff_exists.mp hhit.1
      rw [beq_iff_eq, aclAllowsFrom, dif_neg (by simpa using hfresh)]
      split
      · rename_i hnone
        rw [hnone] at hdirectory
        cases hdirectory
      · rw [if_pos hhit.2]
    · intro visited key next row hfresh hhit hrow hparent
      have hinherits : row.aclInherits = true ∧ row.parentId = some next := by
        rw [GraphDirectory.inheritsFrom] at hparent
        split_ifs at hparent with hinherits
        exact ⟨hinherits, hparent⟩
      have hgrant : ¬graph.grantsAt principalId groups action key = true := by
        intro hgrant
        exact hhit ⟨by rw [hrow]; rfl, hgrant⟩
      congr 1
      rw [aclAllowsFrom, dif_neg (by simpa using hfresh)]
      split
      · rename_i hnone
        rw [hnone] at hrow
        cases hrow
      · rename_i directory hfound
        rw [hfound] at hrow
        cases hrow
        rw [if_neg hgrant, if_neg (by simp [hinherits.1]), hinherits.2]

theorem authorize_eq_allowed_iff {token : TokenScope} {request : AuthorizationRequest} :
    graph.authorize principalId token request = .allowed ↔
      principalId ∈ graph.activePrincipals ∧ token.principalId = principalId ∧ token.revoked = false ∧
        request.now < token.expiresAt ∧ request.action ∈ token.actions ∧
        graph.inSubtree token.rootDirectoryId request.targetDirectoryId = true ∧
        driverScopeAllows token request = true ∧
        (token.snapshotId = none ∨ token.snapshotId = request.snapshotId) ∧
        graph.aclAllows principalId request.targetDirectoryId request.action = .ok true := by
  rw [authorize]
  split_ifs with hprincipal htoken haction hsubtree hdriver hsnapshot
  · simp only [Bool.not_eq_true', List.contains_eq_mem, decide_eq_false_iff_not] at hprincipal
    simp [hprincipal]
  · simp only [Bool.or_eq_true, bne_iff_ne, ne_eq, decide_eq_true_eq] at htoken
    constructor
    · intro h
      cases h
    · intro h
      obtain ⟨_, hsame, hrevoked, hexpires, _⟩ := h
      rcases htoken with (hother | hother) | hother
      · exact absurd hsame hother
      · rw [hrevoked] at hother
        cases hother
      · omega
  · simp only [Bool.not_eq_true', List.contains_eq_mem, decide_eq_false_iff_not] at haction
    simp [haction]
  · simp only [Bool.not_eq_true'] at hsubtree
    simp [hsubtree]
  · simp only [Bool.not_eq_true'] at hdriver
    simp [hdriver]
  · simp only [Bool.and_eq_true, bne_iff_ne, ne_eq] at hsnapshot
    constructor
    · intro h
      cases h
    · intro h
      obtain ⟨_, _, _, _, _, _, _, hnone | hsame, _⟩ := h
      · rw [hnone] at hsnapshot
        cases hsnapshot.1
      · exact absurd hsame hsnapshot.2
  · simp only [Bool.not_eq_true', Bool.not_eq_false, List.contains_eq_mem, decide_eq_true_eq, Bool.or_eq_true,
      bne_iff_ne, ne_eq, not_or, not_not, Bool.not_eq_true, not_le, Bool.and_eq_true, not_and] at *
    have hsnap : token.snapshotId = none ∨ token.snapshotId = request.snapshotId := by
      cases hid : token.snapshotId with
      | none => exact .inl rfl
      | some id => exact .inr (by rw [← hid]; exact hsnapshot (by rw [hid]; rfl))
    split
    · rename_i hacl
      simp_all
    · rename_i hacl
      simp_all
    · rename_i hacl
      simp_all

end AuthorizationGraph

/-! ### The query -/

/-- The grants of `above` count for `directoryId`: it is the directory itself or above it, and every directory below it on
the way inherits. -/
def Tree.Contributes (tree : Tree) (directoryId above : Identity) : Prop :=
  ∃ steps, tree.directories.Reaches DirectoryRow.parentId steps directoryId above ∧
    ∀ fewer < steps, ∀ below row, tree.directories.Reaches DirectoryRow.parentId fewer directoryId below →
      tree.directories.lookup below = some row → row.aclInherits = true

theorem Tree.contributes_iff {tree : Tree} {directoryId above : Identity} :
    tree.Contributes directoryId above ↔ ∃ steps, tree.directories.Reaches
      (fun row => if row.aclInherits then row.parentId else none) steps directoryId above := by
  constructor
  · intro h
    obtain ⟨steps, hreach, hinherits⟩ := h
    refine ⟨steps, ?_⟩
    induction hreach with
    | refl hrow => exact .refl hrow
    | @step steps key next above row hrow hparent _ ih =>
        have hrow' := hinherits 0 (Nat.succ_pos steps) key row (.refl hrow) hrow
        refine .step hrow (by rw [if_pos hrow', hparent]) (ih ?_)
        intro fewer hlt below found hbelow hfound
        exact hinherits (fewer + 1) (by omega) below found (.step hrow hparent hbelow) hfound
  · intro h
    obtain ⟨steps, hreach⟩ := h
    refine ⟨steps, ?_⟩
    induction hreach with
    | refl hrow =>
        refine ⟨.refl hrow, ?_⟩
        intro fewer hlt
        omega
    | @step steps key next above row hrow hparent _ ih =>
        obtain ⟨hrest, hinherits⟩ := ih
        split_ifs at hparent with hrow'
        refine ⟨.step hrow hparent hrest, ?_⟩
        intro fewer hlt below found hbelow hfound
        cases hbelow with
        | refl _ =>
            rw [hrow] at hfound
            cases hfound
            exact hrow'
        | step hkey hup hbelow =>
            rw [hrow] at hkey
            cases hkey
            rw [hparent] at hup
            cases hup
            exact hinherits _ (by omega) below found hbelow hfound

namespace Database

variable {db : Database}

theorem mem_groupsFor_iff {groupId principalId : Identity} :
    groupId ∈ db.authorizationGraph.groupsFor principalId ↔
      (groupId, principalId) ∈ db.surroundings.groupMembers := by
  rw [AuthorizationGraph.groupsFor, List.mem_filterMap]
  simp only [authorizationGraph, List.mem_map, List.mem_dedup, Option.ite_none_right_eq_some, Option.some.injEq,
    List.contains_iff_mem]
  constructor
  · intro h
    obtain ⟨_, ⟨found, _, rfl⟩, hmember, rfl⟩ := h
    obtain ⟨membership, hmem, rfl⟩ := List.mem_map.mp hmember
    obtain ⟨hmem, hgroup⟩ := List.mem_filter.mp hmem
    rw [← beq_iff_eq.mp hgroup]
    exact hmem
  · intro h
    refine ⟨_, ⟨groupId, ⟨_, h, rfl⟩, rfl⟩, ?_, rfl⟩
    exact List.mem_map.mpr ⟨_, List.mem_filter.mpr ⟨h, beq_self_eq_true groupId⟩, rfl⟩

theorem subjectMatches_iff {principalId : Identity} {subject : GrantSubject} :
    subjectMatches subject principalId (db.authorizationGraph.groupsFor principalId) =
      db.subjectIncludes principalId subject := by
  cases subject with
  | principal id => rfl
  | group id =>
      rw [subjectMatches, subjectIncludes, Bool.eq_iff_iff, List.contains_iff_mem, List.contains_iff_mem,
        mem_groupsFor_iff]

/-- A grant of `directoryId` itself that allows the action. -/
def GrantAt (db : Database) (principalId : Identity) (action : Action) (directoryId : Identity) : Prop :=
  ∃ id grant, db.authority.grants.lookup id = some grant ∧ grant.directoryId = directoryId ∧ grant.action = action ∧
    db.subjectIncludes principalId grant.subject = true

theorem grantsAt_iff {principalId directoryId : Identity} {action : Action} :
    db.authorizationGraph.grantsAt principalId (db.authorizationGraph.groupsFor principalId) action directoryId = true ↔
      db.GrantAt principalId action directoryId := by
  simp only [AuthorizationGraph.grantsAt, subjectMatches_iff, List.any_eq_true, Bool.and_eq_true, beq_iff_eq]
  constructor
  · intro h
    obtain ⟨grant, hmem, ⟨hdirectory, haction⟩, hsubject⟩ := h
    obtain ⟨⟨id, row⟩, hrow, rfl⟩ := List.mem_map.mp hmem
    exact ⟨id, row, Table.mem_entries_iff.mp hrow, hdirectory, haction, hsubject⟩
  · intro h
    obtain ⟨id, row, hrow, hdirectory, haction, hsubject⟩ := h
    exact ⟨_, List.mem_map.mpr ⟨⟨id, row⟩, Table.mem_entries_iff.mpr hrow, rfl⟩, ⟨hdirectory, haction⟩, hsubject⟩

theorem granted_iff {directoryId principalId : Identity} {action : Action} :
    db.granted directoryId principalId action = true ↔
      ∃ above, db.tree.Contributes directoryId above ∧ db.GrantAt principalId action above := by
  rw [granted, Table.any_eq_true]
  simp only [Bool.and_eq_true, beq_iff_eq, List.contains_iff_mem, Tree.aclDirectories, List.mem_map, Prod.exists,
    exists_and_right, exists_eq_right, Table.mem_lineage_iff]
  constructor
  · intro h
    obtain ⟨id, grant, hgrant, ⟨haction, _, hreach⟩, hsubject⟩ := h
    exact ⟨grant.directoryId, Tree.contributes_iff.mpr hreach, id, grant, hgrant, rfl, haction, hsubject⟩
  · intro h
    obtain ⟨above, hcontributes, id, grant, hgrant, rfl, haction, hsubject⟩ := h
    obtain ⟨steps, hreach⟩ := Tree.contributes_iff.mp hcontributes
    obtain ⟨row, hrow⟩ := hreach.lookup_above
    exact ⟨id, grant, hgrant, ⟨haction, ⟨row, hrow⟩, steps, hreach⟩, hsubject⟩

theorem graph_reaches_iff {above : GraphDirectory → Option Identity} {steps : Nat} {directoryId goal : Identity} :
    db.authorizationGraph.directories.Reaches above steps directoryId goal ↔
      db.tree.directories.Reaches (fun row => above ⟨row.parentId, row.aclInherits⟩) steps directoryId goal := by
  exact Table.reaches_project db.tree.directories fun row => GraphDirectory.mk row.parentId row.aclInherits

theorem aclAllows_iff {directoryId principalId : Identity} {action : Action} :
    db.authorizationGraph.aclAllows principalId directoryId action = .ok true ↔
      ∃ above, db.tree.Contributes directoryId above ∧ db.GrantAt principalId action above := by
  rw [AuthorizationGraph.aclAllows, AuthorizationGraph.aclAllowsFrom_iff]
  simp only [grantsAt_iff]
  rw [exists_comm]
  refine exists_congr fun above => ?_
  rw [exists_and_right, Tree.contributes_iff]
  refine and_congr_left' (exists_congr fun steps => ?_)
  exact graph_reaches_iff

theorem mem_activePrincipals_iff {principalId : Identity} :
    principalId ∈ db.authorizationGraph.activePrincipals ↔ db.principalActive principalId = true := by
  rw [principalActive, beq_iff_eq, ← Table.mem_entries_iff]
  simp only [authorizationGraph, List.mem_map, List.mem_filter, beq_iff_eq]
  constructor
  · intro h
    obtain ⟨⟨id, state⟩, ⟨hmem, rfl⟩, rfl⟩ := h
    exact hmem
  · intro h
    exact ⟨_, ⟨h, rfl⟩, rfl⟩

theorem lt_foldl_min_iff {now : Nat} {times : List Nat} {initial : Nat} :
    now < times.foldl min initial ↔ now < initial ∧ ∀ time ∈ times, now < time := by
  induction times generalizing initial with
  | nil => simp
  | cons time times ih =>
      rw [List.foldl_cons, ih, lt_min_iff]
      simp only [List.mem_cons, forall_eq_or_imp]
      exact and_assoc

/-- Every token met on the way up from `tokenId` is sealed, unrevoked, unexpired and the principal's.  The tables say what
is met: no walk is followed, so a chain that closes on itself is as good as any other. -/
def ChainInForce (db : Database) (tokenId principalId : Identity) : Prop :=
  ∀ steps above row, db.authority.tokens.Reaches TokenRow.parentTokenId steps tokenId above →
    db.authority.tokens.lookup above = some row →
      row.sealedAt.isSome ∧ row.revokedAt = none ∧ db.now < row.expiresAt ∧ row.principalId = principalId

theorem chainInForce_iff {tokenId principalId : Identity} :
    db.ChainInForce tokenId principalId ↔
      (db.tokenChain tokenId).all (fun chain => chain.live db.now && chain.principalId == principalId) = true := by
  simp only [ChainInForce, tokenChain, List.all_eq_true, List.mem_map, Prod.exists, exists_eq_right, TokenRow.live,
    Bool.and_eq_true, beq_iff_eq, decide_eq_true_eq, gt_iff_lt, Option.isNone_iff_eq_none]
  constructor
  · intro hforce row hmem
    obtain ⟨above, hmem⟩ := hmem
    obtain ⟨hrow, steps, hreach⟩ := Table.mem_lineage_iff.mp hmem
    obtain ⟨hsealed, hrevoked, hexpires, hprincipal⟩ := hforce steps above row hreach hrow
    exact ⟨⟨⟨hsealed, hrevoked⟩, hexpires⟩, hprincipal⟩
  · intro hall steps above row hreach hrow
    obtain ⟨⟨⟨hsealed, hrevoked⟩, hexpires⟩, hprincipal⟩ :=
      hall row ⟨above, Table.mem_lineage_iff.mpr ⟨hrow, steps, hreach⟩⟩
    exact ⟨hsealed, hrevoked, hexpires, hprincipal⟩

/-- The narrowed scope is in force exactly when the whole chain is live and one principal's. -/
theorem tokenScope_inForce_iff {tokenId : Identity} {row : TokenRow} {scope : TokenScope}
    (hrow : db.authority.tokens.lookup tokenId = some row) (hscope : db.tokenScope tokenId = some scope) :
    (scope.revoked = false ∧ db.now < scope.expiresAt) ↔ row.live db.now = true ∧
      (db.tokenChain tokenId).all (fun chain => chain.live db.now && chain.principalId == row.principalId) = true := by
  rw [tokenScope, hrow, Option.map_some, Option.some.injEq] at hscope
  subst hscope
  have hself : row ∈ db.tokenChain tokenId :=
    List.mem_map.mpr ⟨(tokenId, row), Table.mem_lineage_iff.mpr ⟨hrow, 0, .refl hrow⟩, rfl⟩
  simp only [List.any_eq_false, Bool.or_eq_true, bne_iff_ne, lt_foldl_min_iff, List.mem_map, forall_exists_index,
    and_imp, forall_apply_eq_imp_iff₂, List.all_eq_true, Bool.and_eq_true, beq_iff_eq, TokenRow.live, decide_eq_true_eq,
    gt_iff_lt, not_or, ne_eq, not_not]
  constructor
  · intro h
    obtain ⟨hlive, hexpires, hall⟩ := h
    have hchain : ∀ chain ∈ db.tokenChain tokenId,
        ((chain.sealedAt.isSome = true ∧ chain.revokedAt.isNone = true) ∧ db.now < chain.expiresAt) ∧
          chain.principalId = row.principalId := by
      intro chain hmem
      obtain ⟨⟨hsealed, hrevoked⟩, hprincipal⟩ := hlive chain hmem
      exact ⟨⟨⟨by simpa [Option.isSome_iff_ne_none] using hsealed, by simpa using hrevoked⟩, hall chain hmem⟩, hprincipal⟩
    exact ⟨(hchain row hself).1, hchain⟩
  · intro h
    obtain ⟨hlive, hchain⟩ := h
    refine ⟨?_, hlive.2, fun chain hmem => (hchain chain hmem).1.2⟩
    intro chain hmem
    obtain ⟨⟨⟨hsealed, hrevoked⟩, _⟩, hprincipal⟩ := hchain chain hmem
    exact ⟨⟨by simpa [Option.isSome_iff_ne_none] using hsealed, by simpa using hrevoked⟩, hprincipal⟩

/-- The evaluator's scope is in force exactly when the chain of the tables is. -/
theorem scope_inForce_iff {tokenId : Identity} {scope : TokenScope} (hscope : db.tokenScope tokenId = some scope) :
    (scope.revoked = false ∧ db.now < scope.expiresAt) ↔ db.ChainInForce tokenId scope.principalId := by
  cases hrow : db.authority.tokens.lookup tokenId with
  | none => simp [tokenScope, hrow] at hscope
  | some row =>
      have hprincipal : scope.principalId = row.principalId := by
        rw [tokenScope, hrow, Option.map_some, Option.some.injEq] at hscope
        rw [← hscope]
      have hself : (tokenId, row) ∈ db.authority.tokens.lineage TokenRow.parentTokenId tokenId :=
        Table.mem_lineage_iff.mpr ⟨hrow, 0, .refl hrow⟩
      rw [tokenScope_inForce_iff hrow hscope, chainInForce_iff, hprincipal, and_iff_right_iff_imp, List.all_eq_true]
      intro hall
      exact (Bool.and_eq_true_iff.mp (hall row (List.mem_map.mpr ⟨(tokenId, row), hself, rfl⟩))).1

theorem chainInForce_of_authorized {token : AuthenticatedToken} {directoryId : Identity} {action : Action}
    (hauthorized : db.authorized token directoryId action = true) : db.ChainInForce token.id token.principalId := by
  rw [authorized, chainAuthorized] at hauthorized
  split at hauthorized
  · simp only [Bool.and_eq_true, beq_iff_eq] at hauthorized
    obtain ⟨⟨⟨⟨⟨⟨⟨⟨hprincipal, _⟩, _⟩, _⟩, _⟩, _⟩, _⟩, hchain⟩, _⟩ := hauthorized
    rw [← hprincipal]
    exact chainInForce_iff.mpr hchain
  · cases hauthorized

theorem driverScopeAllows_iff {tokenId directoryId : Identity} {action : Action} {driverId : Option Text}
    {row : TokenRow} {scope : TokenScope} (hrow : db.authority.tokens.lookup tokenId = some row)
    (hscope : db.tokenScope tokenId = some scope) :
    driverScopeAllows scope ⟨directoryId, action, driverId, none, db.now⟩ = true ↔
      (action = .driverUse → driverId.isSome) ∧ ∀ id ∈ driverId, row.allowsDriver id = true := by
  rw [tokenScope, hrow, Option.map_some, Option.some.injEq] at hscope
  subst hscope
  have hrequires : action.requiresDriver = true ↔ action = .driverUse := by
    cases action <;> simp [Action.requiresDriver]
  cases driverId with
  | none =>
      simp only [driverScopeAllows, Option.isNone_none, Bool.and_true, hrequires, Option.isSome_none, Option.mem_def,
        reduceCtorEq, false_implies, implies_true, and_true]
      split_ifs <;> simp_all
  | some id =>
      simp only [driverScopeAllows, Option.isNone_some, Bool.and_false, Option.isSome_some, Option.mem_def,
        Option.some.injEq, forall_eq', implies_true, true_and, TokenRow.allowsDriver]
      split_ifs <;> simp_all

/-- The query and the evaluator agree on a request that names a driver within the token's scope, or none where the
action needs none. -/
theorem authorized_iff_graphDecision (hreferences : db.References) (token : AuthenticatedToken)
    {directoryId : Identity} {target : DirectoryRow} (htarget : db.tree.directories.lookup directoryId = some target)
    (hactive : target.state = .active) {action : Action} {driverId : Option Text}
    (hneeded : action = .driverUse → driverId.isSome)
    (hallowed : ∀ id ∈ driverId, ∀ row, db.authority.tokens.lookup token.id = some row → row.allowsDriver id = true) :
    db.authorized token directoryId action = true ↔
      db.graphDecision token directoryId action driverId = some .allowed := by
  rw [authorized, chainAuthorized, graphDecision]
  cases hrow : db.authority.tokens.lookup token.id with
  | none => simp [tokenScope, hrow]
  | some row =>
      obtain ⟨scope, hscope⟩ : ∃ scope, db.tokenScope token.id = some scope := by
        rw [tokenScope, hrow]
        exact ⟨_, rfl⟩
      have hdriver : driverScopeAllows scope ⟨directoryId, action, driverId, none, db.now⟩ = true :=
        (driverScopeAllows_iff hrow hscope).mpr ⟨hneeded, fun id hid => hallowed id hid row hrow⟩
      have hforce := tokenScope_inForce_iff hrow hscope
      have hfields : scope.principalId = row.principalId ∧ scope.rootDirectoryId = row.rootDirectoryId ∧
          scope.actions = row.actions ∧ scope.snapshotId = row.snapshotId := by
        rw [tokenScope, hrow, Option.map_some, Option.some.injEq] at hscope
        subst hscope
        exact ⟨rfl, rfl, rfl, rfl⟩
      obtain ⟨hprincipal, hroot, hactions, hsnapshot⟩ := hfields
      obtain ⟨top, htop⟩ := Option.isSome_iff_exists.mp (hreferences.tokenRoot token.id row hrow)
      have hgraphTop : db.authorizationGraph.directories.lookup row.rootDirectoryId =
          some ⟨top.parentId, top.aclInherits⟩ := by
        simp [authorizationGraph, htop]
      have hsubtree : db.authorizationGraph.inSubtree row.rootDirectoryId directoryId = true ↔
          (db.tree.ancestors directoryId).contains row.rootDirectoryId = true := by
        rw [AuthorizationGraph.inSubtree_iff hgraphTop]
        simp only [graph_reaches_iff, Tree.ancestors, List.contains_iff_mem, List.mem_map, Prod.exists,
          exists_and_right, exists_eq_right, Table.mem_lineage_iff, htop]
        simp
      rw [hscope, Option.map_some, Option.some.injEq, AuthorizationGraph.authorize_eq_allowed_iff]
      simp only [htarget, hactive, hprincipal, hroot, hactions, hsnapshot, hsubtree, hdriver, aclAllows_iff,
        ← granted_iff, mem_activePrincipals_iff, Bool.and_eq_true, beq_iff_eq, Bool.not_true, Bool.false_or,
        Option.isNone_iff_eq_none, or_self, true_and, beq_self_eq_true]
      constructor
      · intro h
        obtain ⟨⟨⟨⟨⟨⟨⟨⟨hid, hlive⟩, hsnap⟩, hprincipalActive⟩, _⟩, hinside⟩, haction⟩, hchain⟩, hgranted⟩ := h
        obtain ⟨hrevoked, hexpires⟩ := hforce.mpr ⟨hlive, hchain⟩
        rw [← hid]
        exact ⟨hprincipalActive, rfl, hrevoked, hexpires, List.contains_iff_mem.mp haction, hinside, hsnap, hgranted⟩
      · intro h
        obtain ⟨hprincipalActive, hid, hrevoked, hexpires, haction, hinside, hsnap, hgranted⟩ := h
        obtain ⟨hlive, hchain⟩ := hforce.mp ⟨hrevoked, hexpires⟩
        rw [← hid] at hprincipalActive hgranted
        exact ⟨⟨⟨⟨⟨⟨⟨⟨hid, hlive⟩, hsnap⟩, hprincipalActive⟩, trivial⟩, hinside⟩,
          List.contains_iff_mem.mpr haction⟩, hchain⟩, hgranted⟩

theorem graphDecision_driverUse_none (db : Database) (token : AuthenticatedToken) (directoryId : Identity) :
    db.graphDecision token directoryId .driverUse none ≠ some .allowed := by
  rw [graphDecision]
  cases hrow : db.authority.tokens.lookup token.id with
  | none => simp [tokenScope, hrow]
  | some row =>
      obtain ⟨scope, hscope⟩ : ∃ scope, db.tokenScope token.id = some scope := by
        rw [tokenScope, hrow]
        exact ⟨_, rfl⟩
      rw [hscope, Option.map_some, ne_eq, Option.some.injEq, AuthorizationGraph.authorize_eq_allowed_iff]
      intro h
      have hdriver := (driverScopeAllows_iff hrow hscope).mp h.2.2.2.2.2.2.1
      exact absurd (hdriver.1 rfl) (by simp)

/-- A request decided by the query and by the evaluator, on any graph of directories and any chain of tokens, cyclic ones
included; a request without driver is refused by the evaluator alone where the action needs one.  The grants that count
are those of the directories up to the first that does not inherit, and each side asks of every token that is reached by
going up to be in force for one principal. -/
theorem authorized_iff_graph_allows (hreferences : db.References) (token : AuthenticatedToken)
    {directoryId : Identity} {target : DirectoryRow} (htarget : db.tree.directories.lookup directoryId = some target)
    (hactive : target.state = .active) (action : Action) :
    (∀ driverId : Option Text, (action = .driverUse → driverId.isSome) →
      (∀ id ∈ driverId, ∀ row, db.authority.tokens.lookup token.id = some row → row.allowsDriver id = true) →
      (db.authorized token directoryId action = true ↔
        db.graphDecision token directoryId action driverId = some .allowed)) ∧
    db.graphDecision token directoryId .driverUse none ≠ some .allowed ∧
    (∀ principalId, (db.granted directoryId principalId action = true ↔
        ∃ above, db.tree.Contributes directoryId above ∧ db.GrantAt principalId action above) ∧
      (db.authorizationGraph.aclAllows principalId directoryId action = .ok true ↔
        ∃ above, db.tree.Contributes directoryId above ∧ db.GrantAt principalId action above)) ∧
    (db.authorized token directoryId action = true → db.ChainInForce token.id token.principalId) ∧
    (∀ scope, db.tokenScope token.id = some scope →
      ((scope.revoked = false ∧ db.now < scope.expiresAt) ↔ db.ChainInForce token.id scope.principalId)) := by
  refine ⟨?_, graphDecision_driverUse_none db token directoryId, fun principalId => ⟨granted_iff, aclAllows_iff⟩,
    chainInForce_of_authorized, fun scope => scope_inForce_iff⟩
  intro driverId hneeded hallowed
  exact authorized_iff_graphDecision hreferences token htarget hactive hneeded hallowed

end Database

namespace Sample

/-- Another directory, for a loop of two. -/
def looped : Identity := .ofByte 15 2

def caller : AuthenticatedToken := ⟨tokenId, principalId, root, 1000000000⟩

/-- Two directories that are each other's parent, and a token that is its own. -/
def loopedDatabase : Database :=
  { database with
    tree := { database.tree with
      directories := (database.tree.directories.insert root { rootRow with parentId := some looped }).insert looped
        { rootRow with parentId := some root } }
    authority := { database.authority with
      tokens := database.authority.tokens.insert tokenId { token with parentTokenId := some tokenId } } }

theorem references_loopedDatabase : loopedDatabase.References where
  directoryParent := Table.forall_lookup_iff.mpr (by decide)
  tokenParent := Table.forall_lookup_iff.mpr (by decide)
  tokenRoot := Table.forall_lookup_iff.mpr (by decide)
  tokenPrincipal := Table.forall_lookup_iff.mpr (by decide)
  grantDirectory := Table.forall_lookup_iff.mpr (by decide)
  members := by decide

theorem lookup_looped :
    loopedDatabase.tree.directories.lookup looped = some { rootRow with parentId := some root } := by
  decide +kernel

/-- On the loop the grants of `root` still reach `looped`; the evaluator allows the read as the query does, and refuses
the driver action that the query allows. -/
theorem looped_allowed :
    loopedDatabase.References ∧
      loopedDatabase.tree.directories.Reaches DirectoryRow.parentId 2 looped looped ∧
      loopedDatabase.authorized caller looped .contentRead = true ∧
      loopedDatabase.graphDecision caller looped .contentRead none = some .allowed ∧
      loopedDatabase.authorized caller looped .driverUse = true ∧
      loopedDatabase.graphDecision caller looped .driverUse none ≠ some .allowed := by
  have hread : loopedDatabase.authorized caller looped .contentRead = true := by decide +kernel
  refine ⟨references_loopedDatabase, ?_, hread, ?_, by decide +kernel, Database.graphDecision_driverUse_none _ _ _⟩
  · have hroot : loopedDatabase.tree.directories.lookup root = some { rootRow with parentId := some looped } := by
      decide +kernel
    exact .step lookup_looped rfl (.step hroot rfl (.refl lookup_looped))
  · refine (Database.authorized_iff_graphDecision references_loopedDatabase caller lookup_looped rfl ?_ ?_).mp hread
    · intro haction
      cases haction
    · intro id hid
      cases hid

theorem authorized_iff_graph_allows_looped :
    loopedDatabase.authorized caller looped .contentRead = true ↔
      loopedDatabase.graphDecision caller looped .contentRead none = some .allowed :=
  (Database.authorized_iff_graph_allows references_loopedDatabase caller lookup_looped rfl .contentRead).1 none
    (by intro haction; cases haction) (by intro id hid; cases hid)

end Sample

end Skydriver
