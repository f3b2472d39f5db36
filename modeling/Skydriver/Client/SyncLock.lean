import Skydriver.Integrity.Directory
import Skydriver.Lib.AdvisoryLock

/-!
# Locks on sync destinations

Before a sync writes below its destination it locks every ancestor directory shared, from the root down, and then the
destination exclusively.  Each lock is taken without waiting, in a step of its own, and any refusal ends the sync.  Any
number of processes does so at the same time; a process may stop anywhere, and its files are closed one after another.

A path leads to the same directory throughout.  Different paths may lead to one directory, as they do under bind mounts.
-/

namespace Skydriver.Client

open AdvisoryLock

/-- A canonical absolute path: the names below the root. -/
abbrev LocalPath := List Text

def ancestors (path : LocalPath) : List LocalPath := path.inits.reverse

def lockOrder (destination : LocalPath) : List LocalPath := ((ancestors destination).drop 1).reverse

theorem lockOrder_cons (name : Text) (path : LocalPath) :
    lockOrder (name :: path) = [] :: (lockOrder path).map (name :: ·) := by
  have hdropLast : ∀ destination, lockOrder destination = destination.inits.dropLast := by
    intro destination
    rw [lockOrder, ancestors, List.drop_one, List.tail_reverse, List.reverse_reverse]
  have hnonempty : path.inits.map (name :: ·) ≠ [] := by cases path <;> simp
  rw [hdropLast, hdropLast, List.inits_cons, List.dropLast_cons_of_ne_nil hnonempty, List.map_dropLast]

theorem mem_lockOrder {path destination : LocalPath} :
    path ∈ lockOrder destination ↔ path <+: destination ∧ path ≠ destination := by
  induction destination generalizing path with
  | nil => simp [lockOrder, ancestors]
  | cons name destination ih =>
      rw [lockOrder_cons, List.mem_cons, List.mem_map]
      cases path with
      | nil => simp
      | cons first path =>
          simp only [ih, List.cons_prefix_cons, List.cons.injEq, ne_eq, reduceCtorEq, false_or]
          constructor
          · rintro ⟨_, ⟨hleading, hne⟩, rfl, rfl⟩
            exact ⟨⟨rfl, hleading⟩, fun hsame => hne hsame.2⟩
          · rintro ⟨⟨rfl, hleading⟩, hne⟩
            exact ⟨path, ⟨hleading, fun hsame => hne ⟨rfl, hsame⟩⟩, rfl, rfl⟩

variable {ι : Type} (inode : LocalPath → ι)

abbrev LockTable (ι : Type) := List (Hold Nat ι)

/-- A process in `acquire_sync_lock` or behind it. -/
inductive SyncProcess where
  /-- These ancestors are still to be locked, and then the destination. -/
  | locking (destination : LocalPath) (remaining : List LocalPath)
  /-- The process owns its `DestinationLock`. -/
  | holding (destination : LocalPath)
  /-- The process failed, was killed or dropped its lock; its files are being closed. -/
  | closing
deriving DecidableEq

/-- The next lock that a process asks for, and what becomes of the process if it is granted. -/
def SyncProcess.request (index : Nat) : SyncProcess → Option (Hold Nat ι × SyncProcess)
  | .locking destination (ancestor :: remaining) =>
      some (⟨index, inode ancestor, .shared⟩, .locking destination remaining)
  | .locking destination [] => some (⟨index, inode destination, .exclusive⟩, .holding destination)
  | .holding _ => none
  | .closing => none

structure SyncSystem (ι : Type) where
  processes : List SyncProcess
  table : LockTable ι
deriving DecidableEq

inductive SyncEvent where
  /-- A process canonicalizes its destination. -/
  | start (destination : LocalPath)
  /-- A process asks for its next lock. -/
  | lock (index : Nat)
  /-- A process fails, is killed or drops its lock. -/
  | stop (index : Nat)
  /-- One file of a stopped process is closed. -/
  | close (position : Nat)

/-- Perform one event; an event that does not apply changes nothing. -/
def SyncSystem.perform [DecidableEq ι] (system : SyncSystem ι) : SyncEvent → SyncSystem ι
  | .start destination =>
      { system with processes := system.processes ++ [.locking destination (lockOrder destination)] }
  | .lock index =>
      match system.processes[index]?.bind (SyncProcess.request inode index) with
      | none => system
      | some (hold, next) =>
          match tryLock system.table hold with
          | none => { system with processes := system.processes.set index .closing }
          | some table => ⟨system.processes.set index next, table⟩
  | .stop index => { system with processes := system.processes.set index .closing }
  | .close position =>
      match system.table[position]? with
      | none => system
      | some hold =>
          if system.processes[hold.owner]? = some .closing then
            { system with table := system.table.eraseIdx position }
          else system

/-- What any number of processes and the kernel have come to. -/
def SyncSystem.after [DecidableEq ι] (events : List SyncEvent) : SyncSystem ι := events.foldl (SyncSystem.perform inode) ⟨[], []⟩

def SyncProcess.Backed (index : Nat) (table : LockTable ι) : SyncProcess → Prop
  | .locking destination remaining => ∃ locked, locked ++ remaining = lockOrder destination ∧
      ∀ ancestor ∈ locked, ⟨index, inode ancestor, .shared⟩ ∈ table
  | .holding destination => ⟨index, inode destination, .exclusive⟩ ∈ table ∧
      ∀ ancestor ∈ lockOrder destination, ⟨index, inode ancestor, .shared⟩ ∈ table
  | .closing => True

/-- The table is sound, and every process has the locks that it relies on. -/
structure SyncSystem.Sound (system : SyncSystem ι) : Prop where
  table : AdvisoryLock.Sound system.table
  backed : ∀ (index : Nat) (process : SyncProcess), system.processes[index]? = some process →
    process.Backed inode index system.table

variable {inode}

theorem SyncProcess.Backed.mono {index : Nat} {table after : LockTable ι} {process : SyncProcess}
    (h : process.Backed inode index table) (hkept : ∀ hold ∈ table, hold.owner = index → hold ∈ after) :
    process.Backed inode index after := by
  cases process with
  | locking destination remaining =>
      obtain ⟨locked, horder, hlocked⟩ := h
      exact ⟨locked, horder, fun ancestor hancestor => hkept _ (hlocked ancestor hancestor) rfl⟩
  | holding destination =>
      obtain ⟨hdestination, hancestors⟩ := h
      exact ⟨hkept _ hdestination rfl, fun ancestor hancestor => hkept _ (hancestors ancestor hancestor) rfl⟩
  | closing => trivial

theorem SyncProcess.Backed.request {index : Nat} {table : LockTable ι} {process next : SyncProcess}
    {hold : Hold Nat ι} (h : process.Backed inode index table) (hrequest : process.request inode index = some (hold, next)) :
    hold.owner = index ∧ next.Backed inode index (hold :: table) := by
  cases process with
  | locking destination remaining =>
      obtain ⟨locked, horder, hlocked⟩ := h
      cases remaining with
      | nil =>
          cases hrequest
          rw [List.append_nil] at horder
          subst horder
          exact ⟨rfl, List.mem_cons_self, fun ancestor hancestor => List.mem_cons_of_mem _ (hlocked ancestor hancestor)⟩
      | cons ancestor remaining =>
          cases hrequest
          refine ⟨rfl, locked ++ [ancestor], by simpa using horder, fun other hother => ?_⟩
          rcases List.mem_append.mp hother with hold | hnew
          · exact List.mem_cons_of_mem _ (hlocked other hold)
          · rw [List.mem_singleton.mp hnew]
            exact List.mem_cons_self
  | holding destination => cases hrequest
  | closing => cases hrequest

theorem SyncSystem.Sound.set {system : SyncSystem ι} (h : system.Sound inode) {index : Nat} {next : SyncProcess}
    {table : LockTable ι} (htable : AdvisoryLock.Sound table) (hkept : system.table ⊆ table)
    (hnext : next.Backed inode index table) : SyncSystem.Sound inode ⟨system.processes.set index next, table⟩ := by
  refine ⟨htable, fun other process hprocess => ?_⟩
  rw [List.getElem?_set] at hprocess
  split_ifs at hprocess with hsame hbound
  · subst hsame
    cases hprocess
    exact hnext
  · exact (h.backed other process hprocess).mono fun hold hhold _ => hkept hhold

variable [DecidableEq ι]

theorem SyncSystem.Sound.perform {system : SyncSystem ι} (h : system.Sound inode) (event : SyncEvent) :
    (system.perform inode event).Sound inode := by
  cases event with
  | start destination =>
      refine ⟨h.table, fun index process hprocess => ?_⟩
      rw [SyncSystem.perform, List.getElem?_append] at hprocess
      split at hprocess
      · exact h.backed index process hprocess
      · rw [List.mem_singleton.mp (List.mem_of_getElem? hprocess)]
        exact ⟨[], rfl, by simp⟩
  | lock index =>
      rw [SyncSystem.perform]
      split
      · exact h
      · next hold next hrequest =>
          obtain ⟨process, hprocess, hrequest⟩ := Option.bind_eq_some_iff.mp hrequest
          split
          · exact h.set h.table (List.Subset.refl _) trivial
          · next table hgranted =>
              obtain ⟨rfl, hsound⟩ := h.table.tryLock hgranted
              exact h.set hsound (List.subset_cons_self _ _) ((h.backed index process hprocess).request hrequest).2
  | stop index => exact h.set h.table (List.Subset.refl _) trivial
  | close position =>
      rw [SyncSystem.perform]
      split
      · exact h
      · next hold hposition =>
          split
          · next hclosing =>
              refine ⟨h.table.sublist (List.eraseIdx_sublist _ _), fun index process hprocess => ?_⟩
              by_cases howner : hold.owner = index
              · subst howner
                cases hclosing.symm.trans hprocess
                trivial
              · refine (h.backed index process hprocess).mono fun other hother hindex => ?_
                -- the erased entry belongs to somebody else
                refine (List.mem_eraseIdx_iff_getElem?.mpr ?_)
                obtain ⟨found, hfound⟩ := List.mem_iff_getElem?.mp hother
                refine ⟨found, fun hsame => howner ?_, hfound⟩
                subst hsame
                rw [hposition, Option.some.injEq] at hfound
                rw [hfound, hindex]
          · exact h

theorem SyncSystem.sound_after (events : List SyncEvent) : (SyncSystem.after inode events).Sound inode := by
  have hsound : ∀ system : SyncSystem ι, system.Sound inode →
      (events.foldl (SyncSystem.perform inode) system).Sound inode := by
    induction events with
    | nil => exact fun system h => h
    | cons event events ih => exact fun system h => ih _ (h.perform event)
  exact hsound _ ⟨sound_nil, by simp⟩

/-- Two processes that hold their locks at one time have destinations apart: neither is the other or an ancestor of
it. -/
theorem syncLock_excludes (inode : LocalPath → ι) (events : List SyncEvent) (first second : Nat) (hne : first ≠ second)
    (destination destination' : LocalPath)
    (hfirst : (SyncSystem.after inode events).processes[first]? = some (.holding destination))
    (hsecond : (SyncSystem.after inode events).processes[second]? = some (.holding destination')) :
    ¬ destination <+: destination' ∧ ¬ destination' <+: destination := by
  have hsound : (SyncSystem.after inode events).Sound inode := SyncSystem.sound_after events
  -- the process further up holds its destination exclusively, the other one has it locked as well
  have hapart : ∀ {upper lower : Nat} {path path' : LocalPath}, upper ≠ lower →
      (SyncSystem.after inode events).processes[upper]? = some (.holding path) →
      (SyncSystem.after inode events).processes[lower]? = some (.holding path') → ¬ path <+: path' := by
    intro upper lower path path' hdistinct hupper hlower hleading
    obtain ⟨hexclusive, _⟩ := hsound.backed upper _ hupper
    obtain ⟨hdestination, hancestors⟩ := hsound.backed lower _ hlower
    by_cases hsame : path = path'
    · subst hsame
      exact hdistinct (congrArg Hold.owner (hsound.table.exclusive hexclusive hdestination rfl rfl))
    · have hshared := hancestors path (mem_lockOrder.mpr ⟨hleading, hsame⟩)
      exact hdistinct (congrArg Hold.owner (hsound.table.exclusive hexclusive hshared rfl rfl))
  exact ⟨hapart hne hfirst hsecond, hapart hne.symm hsecond hfirst⟩

/-- Siblings may be synchronized at one time. -/
theorem syncLock_excludes_siblings :
    ¬ ([[120], [97]] : LocalPath) <+: [[120], [98]] ∧ ¬ ([[120], [98]] : LocalPath) <+: [[120], [97]] :=
  syncLock_excludes id
    [.start [[120], [97]], .start [[120], [98]], .lock 0, .lock 1, .lock 0, .lock 1, .lock 0, .lock 1] 0 1 (by decide)
    [[120], [97]] [[120], [98]] (by decide) (by decide)

/-- A sync below a destination that is held ends without a lock on it. -/
example : (SyncSystem.after id [.start [[120]], .lock 0, .lock 0, .start [[120], [97]], .lock 1, .lock 1]).processes =
    [.holding [[120]], .closing] := by decide

end Skydriver.Client
